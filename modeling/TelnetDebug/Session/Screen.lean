import TelnetDebug.Session.Echo
import TelnetDebug.Session.HistoryRedraw
import TelnetDebug.Library.Screen

/-! What the screen of a client shows in the course of a session. The echo of an
editing key and that of Enter keep the row with the cursor and the line buffer in
step. A history key blanks the row up to the cursor only, and at either end of
the history it sends nothing at all, so that it depends on the line before it
whether the row shows the line after it. -/
namespace TelnetDebug

open CBuffer Guarded LineZipper CommandHistory VT100

/-- A line is redrawn. -/
def recallEcho (line : List UInt8) : List UInt8 :=
  clearLeftChar ++ (ascii "\x0d" ++ debugShell ++ line)

/-- The bytes sent for a key. -/
def historyEcho (c : Console UInt8) : HistoryKey → List UInt8
  | .edit key => key.echo c.line
  | .up => if c.index = 0 then [] else recallEcho (c.entry (c.index - 1))
  | .down => if c.index = c.entered.length then [] else recallEcho (c.entry (c.index + 1))
  | .enter =>
      if c.line.text = [] then ascii "\r\n" ++ debugShell
      else ascii "\r\n" ++ (ascii "\r\n" ++ debugShell)

/-- A row with the prompt, a line and blanks. -/
def promptRow (width : Nat) (line : List UInt8) : List UInt8 :=
  debugShell ++ line ++ blanks (width - debugShell.length - line.length)

/-- The rows that a key scrolls up. -/
def scrolled (width : Nat) (c : Console UInt8) : HistoryKey → List (List UInt8)
  | .edit _ | .up | .down => []
  | .enter =>
      if c.line.text = [] then [promptRow width []]
      else [promptRow width c.line.text, blanks width]

/-- The editor, and the rows above its line. -/
structure View where
  console : Console UInt8
  above : List (List UInt8)

def welcome : List UInt8 := ascii "Welcome to telnet debug terminal"

namespace View

/-- The rows that the start of a session scrolls up. -/
def opened (width : Nat) : View :=
  ⟨.empty, [blanks width, welcome ++ blanks (width - welcome.length), blanks width]⟩

def press (width : Nat) (v : View) (key : HistoryKey) : View :=
  ⟨TelnetDebug.press v.console key, v.above ++ scrolled width v.console key⟩

end View

/-- The view after a sequence of keys. -/
def view (width : Nat) (keys : List HistoryKey) : View :=
  keys.foldl (View.press width) (.opened width)

/-- What of a line stands to the right of the cursor and behind so many columns. -/
def leftover (z : Zipper UInt8) (columns : Nat) : List UInt8 :=
  z.text.drop (max (z.before.length + 1) columns)

/-- Nothing of the old line would be left in the row behind the new one. -/
def Covers (z : Zipper UInt8) (line : List UInt8) : Prop :=
  ∀ c ∈ leftover z line.length, c = blank

/-- The row shows the line recalled last already. -/
def Unchanged (c : Console UInt8) : Prop :=
  c.line.before = c.recalled ∧ ∀ d ∈ c.line.after, d = blank

/-- The keys after which the row shows the line. -/
def RowKept (c : Console UInt8) : HistoryKey → Prop
  | .edit _ | .enter => True
  | .up => if c.index = 0 then Unchanged c else Covers c.line (c.entry (c.index - 1))
  | .down =>
      if c.index = c.entered.length then Unchanged c else Covers c.line (c.entry (c.index + 1))

instance (z : Zipper UInt8) (line : List UInt8) : Decidable (Covers z line) :=
  inferInstanceAs (Decidable (∀ c ∈ leftover z line.length, c = blank))

instance (c : Console UInt8) : Decidable (Unchanged c) :=
  inferInstanceAs (Decidable (c.line.before = c.recalled ∧ ∀ d ∈ c.line.after, d = blank))

instance (c : Console UInt8) : DecidablePred (RowKept c) := fun
  | .edit _ | .enter => .isTrue trivial
  | .up => inferInstanceAs (Decidable (if c.index = 0 then Unchanged c
      else Covers c.line (c.entry (c.index - 1))))
  | .down => inferInstanceAs (Decidable (if c.index = c.entered.length then Unchanged c
      else Covers c.line (c.entry (c.index + 1))))

/-- The row reads the prompt, the contents of the line buffer and blanks, and
its cursor stands where the cursor counter says. -/
def ScreenAgrees (width : Nat) (screen : Screen) (s : Session) : Prop :=
  screen.terminal.row.cells = promptRow width (text s.cmdBuf.cells) ∧
    screen.terminal.row.column =
      debugShell.length + (text s.cmdBuf.cells).length - s.mgr.moveLeftNum.toNat

section Echo
variable {sign : CharSign} {s t : Session} {c : Console UInt8}

theorem recall_sent (hKeeps : Keeps s c) (hTyped : Typed c) {index : UInt32} {i : Nat}
    (hIndex : index.toNat = i) (hIn : i < maxCmdHistoryNum)
    (hStep : (recallCmd (s.setCursor 0) index >>= Session.reload) = .ok t) :
    t.sent = s.sent ++ recallEcho (c.entry i) := by
  have hEntry := hTyped.entry i
  obtain ⟨e, hCell, hCmd, -⟩ := hKeeps.entries i hIn
  have hText : text e.cmd.cells = c.entry i := by rw [hCmd, text_padded hEntry]
  have hTerm : Terminated e.cmd.cells := hCmd ▸ terminated_padded hEntry
  obtain ⟨u, hRecall, hRedrawn⟩ := recall_redrawn (hIndex ▸ hCell) hTerm
    (by rw [hText]; exact hEntry.short)
  obtain rfl := Except.ok.inj (hRecall.symm.trans hStep)
  rw [hRedrawn.sent, hText]
  rfl

theorem stay_sent (hKeeps : Keeps s c) (hTyped : Typed c)
    (hStep : (s.setCursor 0).reload = .ok t) : t.sent = s.sent := by
  have hTerm : Terminated (s.setCursor 0).mgr.gCmd.cells := by
    show Terminated s.mgr.gCmd.cells
    rw [hKeeps.gCmd]
    exact terminated_padded hTyped.recalled
  rw [Session.reload_eq hTerm] at hStep
  obtain rfl := Except.ok.inj hStep
  rfl

theorem enter_sent (hKeeps : Keeps s c) (hTyped : Typed c) (hAllowed : Allowed c .enter)
    (hStep : s.onEnter = .ok t) : t.sent = s.sent ++ historyEcho c .enter := by
  have hTerm := hKeeps.line.terminated
  have hText := hKeeps.line.text
  unfold historyEcho
  by_cases hSome : c.line.text = []
  · rw [onEnter_empty hTerm (hText.trans hSome)] at hStep
    obtain rfl := Except.ok.inj hStep
    rw [if_pos hSome]
    rfl
  · have hEntered : (press c .enter).entered = c.entered ++ [c.line.text] := by
      show c.enter.entered = _
      rw [Console.enter_line hSome]
    have hMem : c.line.text ∈ (press c .enter).entered := by simp [hEntered]
    have hRoom : c.entered.length < maxCmdHistoryNum := by
      have h := hAllowed.room
      rw [hEntered, List.length_append] at h
      exact h
    obtain ⟨e, hCell, -⟩ := hKeeps.entries c.entered.length hRoom
    rw [← hKeeps.num] at hCell
    have hReturn : s.cmdBuf.peek 0 ≠ 13 := by
      obtain ⟨rest, hSplit⟩ := hTerm.split
      obtain ⟨d, line, hLine⟩ := List.exists_cons_of_ne_nil hSome
      rw [hText, hLine] at hSplit
      rw [Buffer.peek, hSplit]
      exact (hTyped.line d (by simp [hLine])).ne_return
    rw [onEnter_spec hTerm (by rwa [hText])] at hStep
    have hRuns := hAllowed.runs _ hMem
    rw [← hText] at hRuns
    obtain ⟨stored, queue, hOver, -⟩ := cmdOver_spec
      (s := ((s.setCursor 0).setGCmd (.fill (text s.cmdBuf.cells)
        (Nat.le_of_lt (s.cmdBuf.text_length_lt hTerm)))).send (ascii "\r\n"))
      hTerm hReturn hRuns hCell
    obtain rfl := Except.ok.inj (hOver.symm.trans hStep)
    rw [if_neg hSome]
    exact List.append_assoc ..

/-- A key sends its echo and nothing else. -/
theorem history_echo (hKeeps : Keeps s c) (hTyped : Typed c) {key : HistoryKey}
    (hAllowed : Allowed c key) (hStep : s.step sign (historyRead key) = .ok t) :
    t.sent = s.sent ++ historyEcho c key := by
  have hLe := c.index_le
  have hIndex := hKeeps.index
  cases key with
  | edit key =>
      exact echo_step hKeeps.line hKeeps.isOpen (Nat.lt_succ_of_le hAllowed.fits) hStep
  | up =>
      have hRoom := hAllowed.room
      change c.up.entered.length ≤ _ at hRoom
      rw [c.up_entered] at hRoom
      rw [step_key hKeeps.isOpen (by decide +kernel) (keyRead_up sign)] at hStep
      change s.onUp = _ at hStep
      have hZero : s.mgr.cmdIndex = 0 ↔ c.index = 0 := by
        rw [← UInt32.toNat_inj, hIndex]
        rfl
      rw [onUp_eq] at hStep
      unfold historyEcho
      by_cases hFirst : c.index = 0
      · rw [if_pos (hZero.mpr hFirst)] at hStep
        rw [if_pos hFirst, List.append_nil]
        exact stay_sent hKeeps hTyped hStep
      · rw [if_neg fun h => hFirst (hZero.mp h)] at hStep
        rw [if_neg hFirst]
        apply recall_sent hKeeps hTyped _ (by omega) hStep
        rw [toNat_pred fun h => hFirst (hZero.mp h), hIndex]
  | down =>
      have hRoom := hAllowed.next rfl
      rw [step_key hKeeps.isOpen (by decide +kernel) (keyRead_down sign)] at hStep
      change s.onDown = _ at hStep
      have hEnd : s.mgr.cmdIndex = s.mgr.hasInputCmdNum ↔ c.index = c.entered.length := by
        rw [← UInt32.toNat_inj, hIndex, hKeeps.num]
      rw [onDown_eq] at hStep
      unfold historyEcho
      by_cases hLast : c.index = c.entered.length
      · rw [if_pos (hEnd.mpr hLast)] at hStep
        rw [if_pos hLast, List.append_nil]
        exact stay_sent hKeeps hTyped hStep
      · rw [if_neg fun h => hLast (hEnd.mp h)] at hStep
        rw [if_neg hLast]
        apply recall_sent hKeeps hTyped _ (by omega) hStep
        rw [toNat_succ_num (by omega), hIndex]
  | enter =>
      change s.step sign (.byte 13) = _ at hStep
      rw [step_return hKeeps] at hStep
      exact enter_sent hKeeps hTyped hAllowed hStep

end Echo

/-- The screen shows the view. -/
def Displayed (width : Nat) (screen : Screen) (v : View) : Prop :=
  screen.Shows v.above (debugShell ++ v.console.line.before)
    (v.console.line.after ++ blanks (width - debugShell.length - v.console.line.text.length))

theorem backspaceEcho_inline {after : List UInt8} (h : ∀ c ∈ after, Printable c) :
    Screen.Inline (backspaceEcho after) := by
  have hSpace : Screen.Inline (ascii "\x08 \x08") :=
    Screen.Inline.back.append ((Screen.Inline.char printable_space).append .back)
  have hLeft : Screen.Inline moveLeft := .control (by decide)
  unfold backspaceEcho
  apply (hSpace.append _).append
  · split
    · exact hLeft
    · apply Screen.Inline.flatten
      intro piece hPiece
      rw [List.eq_of_mem_replicate hPiece]
      exact hLeft
  · split
    · exact .char printable_space
    · exact Screen.Inline.append (.control (by decide)) (.chars h)

/-- The echo of an editing key stays in the row. -/
theorem EditKey.echo_inline {z : Zipper UInt8} (hText : ∀ c ∈ z.text, Printable c)
    (key : EditKey) : Screen.Inline (key.echo z) := by
  cases key with
  | char c hTypable =>
      have hChar : Screen.Inline [c] := .char hTypable.printable
      rw [EditKey.echo]
      split
      · exact hChar
      · exact Screen.Inline.insertBlank.append hChar
  | left =>
      rw [EditKey.echo]
      split
      · exact .nil
      · exact .control (by decide)
  | right =>
      rw [EditKey.echo]
      split
      · exact .nil
      · exact .control (by decide)
  | backspace c hErases =>
      rw [EditKey.echo]
      split
      · exact .nil
      · exact backspaceEcho_inline fun d hd => hText d (List.mem_append_right _ hd)

section Rows
variable {width : Nat} {z : Zipper UInt8}

theorem row_eq : debugShell ++ z.before ++
    (z.after ++ blanks (width - debugShell.length - z.text.length)) =
      promptRow width z.text := by
  simp only [promptRow, Zipper.text, List.append_assoc]

theorem promptRow_length {line : List UInt8} (hWide : debugShell.length + line.length < width) :
    (promptRow width line).length = width := by
  simp only [promptRow, List.length_append, length_blanks]
  omega

theorem debugShell_printable : ∀ c ∈ debugShell, Printable c := by decide +kernel

/-- The prompt at the start of a blank row. -/
theorem prompt_shown {above : List (List UInt8)} {screen : Screen}
    (h : screen.Shows above [] (blanks width)) (hWide : debugShell.length < width) :
    (screen.feedAll debugShell).Shows above debugShell (blanks (width - debugShell.length)) := by
  have hRoom : debugShell.length < (blanks width).length := by
    rwa [length_blanks]
  have hShows := h.overwrite debugShell_printable hRoom
  rw [List.nil_append, drop_blanks] at hShows
  exact hShows

/-- What a redrawn line leaves of the row behind it. -/
def redrawRest (width : Nat) (z : Zipper UInt8) (line : List UInt8) : List UInt8 :=
  (blanks (debugShell.length + z.before.length + 1) ++
    (z.after ++ blanks (width - debugShell.length - z.text.length)).drop 1).drop
      (debugShell.length + line.length)

theorem redrawRest_length {line : List UInt8}
    (hWide : debugShell.length + z.text.length < width) :
    (redrawRest width z line).length = width - debugShell.length - line.length := by
  have hLength := Zipper.text_length z
  simp only [redrawRest, List.length_drop, List.length_append, length_blanks]
  omega

/-- The rest is blank exactly when nothing of the old line stands in it. -/
theorem redrawRest_blank {line : List UInt8}
    (hWide : debugShell.length + z.text.length < width) :
    redrawRest width z line = blanks (width - debugShell.length - line.length) ↔
      Covers z line := by
  have hLeftover : leftover z line.length =
      z.after.drop (1 + (line.length - (z.before.length + 1))) := by
    simp only [leftover, Zipper.text, List.drop_append]
    rw [List.drop_eq_nil_of_le (by omega), List.nil_append]
    congr 1
    omega
  rw [← redrawRest_length hWide, blanks, List.eq_replicate_iff, Covers, hLeftover]
  simp only [redrawRest, blanks, List.drop_append, List.drop_replicate, List.drop_drop,
    List.forall_mem_append, List.length_replicate, List.mem_replicate]
  constructor
  · intro h c hc
    apply h.2.2.1 c
    convert hc using 2
    omega
  · intro h
    refine ⟨trivial, fun _ hc => hc.2, fun c hc => h c ?_, fun _ hc => hc.2⟩
    convert hc using 2
    omega

end Rows

section Displayed
variable {width : Nat} {screen : Screen} {v : View} (h : Displayed width screen v)
  (hWide : debugShell.length + v.console.line.text.length < width)
include h hWide

theorem edit_displayed {key : EditKey} (hText : ∀ c ∈ v.console.line.text, Printable c)
    (hNext : debugShell.length + (EditKey.apply v.console.line key).text.length < width) :
    Displayed width (screen.feedAll (key.echo v.console.line)) (v.press width (.edit key)) := by
  have hRow : Displays width screen.terminal v.console.line := h.row
  have hShows := h.inline (EditKey.echo_inline hText key) (echo_displays hRow hText hWide hNext)
  constructor
  · rw [hShows.above]
    exact (List.append_nil _).symm
  · exact hShows.row

theorem enter_displayed :
    Displayed width (screen.feedAll (historyEcho v.console .enter)) (v.press width .enter) := by
  have hNew : ascii "\r\n" = [0x0d, 0x0a] := by decide
  have hPrompt : debugShell.length < width := Nat.lt_of_le_of_lt (Nat.le_add_right _ _) hWide
  have hFirst := Screen.Shows.newLine h
  rw [row_eq, promptRow_length hWide, ← hNew] at hFirst
  by_cases hSome : v.console.line.text = []
  · have hEcho : historyEcho v.console .enter = ascii "\r\n" ++ debugShell := if_pos hSome
    have hScrolled : scrolled width v.console .enter = [promptRow width []] := if_pos hSome
    have hEnter : press v.console .enter = v.console := Console.enter_empty hSome
    obtain ⟨hBefore, hAfter⟩ := List.append_eq_nil_iff.mp hSome
    unfold Displayed View.press
    rw [hEcho, Screen.feedAll_append, hScrolled, hEnter]
    simp only [hBefore, hAfter, hSome, List.append_nil, List.nil_append, List.length_nil,
      Nat.sub_zero]
    rw [hSome] at hFirst
    exact prompt_shown hFirst hPrompt
  · have hEcho : historyEcho v.console .enter =
        ascii "\r\n" ++ (ascii "\r\n" ++ debugShell) := if_neg hSome
    have hScrolled : scrolled width v.console .enter =
        [promptRow width v.console.line.text, blanks width] := if_neg hSome
    have hLine : (press v.console .enter).line = .empty := by
      show v.console.enter.line = _
      rw [Console.enter_line hSome]
    have hSecond := hFirst.newLine
    rw [List.nil_append, length_blanks, ← hNew, List.append_assoc] at hSecond
    unfold Displayed View.press
    rw [hEcho, Screen.feedAll_append, Screen.feedAll_append, hScrolled]
    simp only [hLine, Zipper.empty, Zipper.text, List.append_nil, List.nil_append, List.length_nil,
      Nat.sub_zero]
    exact prompt_shown hSecond hPrompt

/-- The row behind the old cursor is left as it was. -/
theorem recall_shown {line : List UInt8} (hLine : ∀ c ∈ line, Printable c)
    (hFits : debugShell.length + line.length < width) :
    (screen.feedAll (recallEcho line)).Shows v.above (debugShell ++ line)
      (redrawRest width v.console.line line) := by
  have hClear : clearLeftChar = [0x1b, 0x5b, 0x31, 0x4b] := by decide
  have hReturn : ascii "\x0d" = [0x0d] := by decide
  have hText : ∀ c ∈ debugShell ++ line, Printable c := by
    rw [List.forall_mem_append]
    exact ⟨debugShell_printable, hLine⟩
  have hRoom : 0 < width - debugShell.length - v.console.line.text.length := by omega
  obtain ⟨x, tail, hTail⟩ :=
    List.exists_cons_of_ne_nil (append_blanks_ne_nil v.console.line.after hRoom)
  have hShown : screen.Shows v.above (debugShell ++ v.console.line.before) (x :: tail) := by
    rw [← hTail]
    exact h
  have hErased := hShown.eraseLeft.carriageReturn
  have hRow : blanks (debugShell ++ v.console.line.before).length ++ blank :: tail =
      blanks (debugShell.length + v.console.line.before.length + 1) ++ tail := by
    rw [List.length_append, blanks, blanks, List.replicate_succ', List.append_assoc]
    rfl
  have hLength : (debugShell ++ line).length < (blanks (debugShell ++
      v.console.line.before).length ++ blank :: tail).length := by
    have hOld := congrArg List.length hTail
    have hZipper := Zipper.text_length v.console.line
    simp only [List.length_append, length_blanks, List.length_cons] at hOld ⊢
    omega
  have hDrawn := hErased.overwrite hText hLength
  rw [hRow, List.length_append] at hDrawn
  unfold recallEcho redrawRest
  rw [hClear, hReturn, Screen.feedAll_append, List.append_assoc, Screen.feedAll_append, hTail]
  exact hDrawn

/-- The row shows a redrawn line when nothing of the old one is left behind it. -/
theorem recall_displayed_iff {c : Console UInt8} {line : List UInt8} (hOf : c.line = .ofLine line)
    (hLine : ∀ d ∈ line, Printable d) (hFits : debugShell.length + line.length < width) :
    Displayed width (screen.feedAll (recallEcho line)) ⟨c, v.above⟩ ↔
      Covers v.console.line line := by
  have hShown := recall_shown h hWide hLine hFits
  rw [← redrawRest_blank hWide]
  unfold Displayed
  rw [hOf, Zipper.text_ofLine]
  constructor
  · intro hDisplayed
    have hCells := hShown.row.row.cells.symm.trans hDisplayed.row.row.cells
    exact List.append_cancel_left hCells
  · intro hRest
    rw [hRest] at hShown
    exact hShown

/-- When nothing is sent the row shows the line if it showed it before. -/
theorem stay_displayed_iff : Displayed width screen ⟨v.console.stay, v.above⟩ ↔
    Unchanged v.console := by
  have hLength := Zipper.text_length v.console.line
  have hShown : screen.Shows v.above (debugShell ++ v.console.line.before) (v.console.line.after ++
    blanks (width - debugShell.length - v.console.line.text.length)) := h
  unfold Displayed Unchanged Console.stay
  simp only [Zipper.text_ofLine]
  constructor
  · intro hDisplayed
    have hColumn := hShown.row.row.column.symm.trans hDisplayed.row.row.column
    have hCells := hShown.row.row.cells.symm.trans hDisplayed.row.row.cells
    obtain ⟨hBefore, hAfter⟩ := List.append_inj hCells hColumn
    constructor
    · exact List.append_cancel_left hBefore
    · intro d hd
      have hMem := List.mem_append_left
        (blanks (width - debugShell.length - v.console.line.text.length)) hd
      rw [hAfter] at hMem
      exact List.eq_of_mem_replicate hMem
  · rintro ⟨hBefore, hAfter⟩
    have hBlank : v.console.line.after = blanks v.console.line.after.length :=
      List.eq_replicate_iff.mpr ⟨rfl, hAfter⟩
    have hRest : v.console.line.after ++
        blanks (width - debugShell.length - v.console.line.text.length) =
          blanks (width - debugShell.length - v.console.recalled.length) := by
      rw [hBlank, blanks, blanks, blanks, List.replicate_append_replicate, ← hBefore]
      congr 1
      omega
    rw [hRest, hBefore] at hShown
    exact hShown

end Displayed

/-- The editor has room for its line, and the screen for the line and the prompt. -/
structure FitsRow (width : Nat) (c : Console UInt8) : Prop where
  wide : debugShell.length + 255 < width
  line : c.line.text.length ≤ 255

section Keys
variable {width : Nat} {screen : Screen} {v : View} (h : Displayed width screen v)
  (hTyped : Typed v.console) (hFits : FitsRow width v.console)
include h hTyped hFits

/-- A history key that moves. -/
theorem goto_displayed_iff {i : Nat} (hLe : i ≤ v.console.entered.length) :
    (Displayed width (screen.feedAll (recallEcho (v.console.entry i)))
        ⟨v.console.goto i hLe, v.above⟩ ↔ Covers v.console.line (v.console.entry i)) ∧
      ∃ before after, (screen.feedAll (recallEcho (v.console.entry i))).Shows v.above
        before after := by
  have hEntry := hTyped.entry i
  have hWide := hFits.wide
  have hLine := hFits.line
  have hShort := hEntry.short
  have hText : ∀ d ∈ v.console.entry i, Printable d := fun d hd => (hEntry.typed d hd).printable
  have hOld : debugShell.length + v.console.line.text.length < width := by omega
  have hNew : debugShell.length + (v.console.entry i).length < width := by omega
  exact ⟨recall_displayed_iff h hOld rfl hText hNew, _, _, recall_shown h hOld hText hNew⟩

omit hTyped in
/-- A history key at its end of the history. -/
theorem stays_displayed_iff :
    (Displayed width (screen.feedAll []) ⟨v.console.stay, v.above⟩ ↔ Unchanged v.console) ∧
      ∃ before after, (screen.feedAll []).Shows v.above before after := by
  have hWide := hFits.wide
  have hLine := hFits.line
  exact ⟨stay_displayed_iff h (by omega), _, _, h⟩

/-- After a key the row shows the line exactly for these keys; the rows above it
are in any case those of the view. -/
theorem key_displayed_iff {key : HistoryKey} (hAllowed : Allowed v.console key) :
    (Displayed width (screen.feedAll (historyEcho v.console key)) (v.press width key) ↔
        RowKept v.console key) ∧
      ∃ before after, (screen.feedAll (historyEcho v.console key)).Shows (v.press width key).above
        before after := by
  have hWide := hFits.wide
  have hLine := hFits.line
  have hOld : debugShell.length + v.console.line.text.length < width := by omega
  cases key with
  | edit key =>
      have hNext := hAllowed.fits
      change (EditKey.apply v.console.line key).text.length ≤ 255 at hNext
      have hShown := edit_displayed h hOld (fun d hd => (hTyped.line d hd).printable)
        (Nat.lt_of_le_of_lt (Nat.add_le_add_left hNext _) hWide)
      exact ⟨iff_of_true hShown trivial, _, _, hShown⟩
  | enter =>
      have hShown := enter_displayed h hOld
      exact ⟨iff_of_true hShown trivial, _, _, hShown⟩
  | up =>
      unfold View.press historyEcho RowKept scrolled press Console.press
      rw [List.append_nil]
      by_cases hFirst : v.console.index = 0
      · rw [if_pos hFirst, if_pos hFirst, Console.up_first hFirst]
        exact stays_displayed_iff h hFits
      · rw [if_neg hFirst, if_neg hFirst, Console.up_move hFirst]
        exact goto_displayed_iff h hTyped hFits _
  | down =>
      unfold View.press historyEcho RowKept scrolled press Console.press
      rw [List.append_nil]
      by_cases hLast : v.console.index = v.console.entered.length
      · rw [if_pos hLast, if_pos hLast, Console.down_last hLast]
        exact stays_displayed_iff h hFits
      · rw [if_neg hLast, if_neg hLast, Console.down_move hLast]
        exact goto_displayed_iff h hTyped hFits _

end Keys

/-- The screen of a client on which everything is shown that the session sends. -/
def screenOf (width : Nat) (hWidth : 0 < width) (s : Session) : Screen :=
  (Screen.cleared width hWidth).feedAll s.sent

/-- The row agrees with the session exactly when it shows the line. -/
theorem agrees_iff_displayed {width : Nat} {screen : Screen} {s : Session} {v : View}
    (hLine : ShowsLine s v.console.line) {before after : List UInt8}
    (hShown : screen.Shows v.above before after) :
    ScreenAgrees width screen s ↔ Displayed width screen v := by
  have hText := hLine.text
  have hLength := Zipper.text_length v.console.line
  have hCursor := hLine.cursor
  unfold ScreenAgrees
  rw [hText, hCursor, ← row_eq]
  constructor
  · rintro ⟨hCells, hColumn⟩
    refine ⟨hShown.above, ⟨hCells, ?_⟩, hShown.row.ground⟩
    rw [hColumn, List.length_append]
    omega
  · intro hDisplayed
    refine ⟨hDisplayed.row.row.cells, ?_⟩
    rw [hDisplayed.row.row.column, List.length_append]
    omega

/-- A session begins with the welcome and a prompt. -/
theorem opened_displayed {width : Nat} (hWide : debugShell.length + 255 < width)
    (hWidth : 0 < width) :
    Displayed width (screenOf width hWidth .init) (.opened width) := by
  have hSent : Session.init.sent = ascii "\r\n" ++ (welcome ++ (ascii "\r\n" ++
      (ascii "\r\n" ++ debugShell))) := by decide
  have hNew : ascii "\r\n" = [0x0d, 0x0a] := by decide
  have hPrompt : debugShell.length < width := Nat.lt_of_le_of_lt (Nat.le_add_right _ _) hWide
  have hWelcome : welcome.length < width := Nat.lt_of_le_of_lt (by decide) hWide
  have hText : ∀ c ∈ welcome, Printable c := by decide +kernel
  have hRow : (welcome ++ blanks (width - welcome.length)).length = width := by
    rw [List.length_append, length_blanks]
    exact Nat.add_sub_of_le (Nat.le_of_lt hWelcome)
  have hFirst := (Screen.cleared_shows hWidth).newLine
  rw [List.nil_append, List.nil_append, length_blanks, ← hNew] at hFirst
  have hRoom : welcome.length < (blanks width).length := by rwa [length_blanks]
  have hSecond := (hFirst.overwrite hText hRoom).newLine
  rw [List.nil_append, drop_blanks, hRow, ← hNew] at hSecond
  have hThird := hSecond.newLine
  rw [List.nil_append, length_blanks, ← hNew] at hThird
  unfold screenOf
  rw [hSent]
  simp only [Screen.feedAll_append]
  exact prompt_shown hThird hPrompt

/-- The session and the screen follow the view. -/
structure Follows (width : Nat) (hWidth : 0 < width) (s : Session) (v : View) : Prop where
  keeps : Keeps s v.console
  typed : Typed v.console
  fits : FitsRow width v.console
  screen : Displayed width (screenOf width hWidth s) v

theorem Follows.step {width : Nat} {hWidth : 0 < width} {s : Session} {v : View} (sign : CharSign)
    (h : Follows width hWidth s v) {key : HistoryKey} (hAllowed : Allowed v.console key) :
    ∃ t, s.step sign (historyRead key) = .ok t ∧ Keeps t (press v.console key) ∧
      Typed (press v.console key) ∧
      (screenOf width hWidth t).above = (v.press width key).above ∧
      (ScreenAgrees width (screenOf width hWidth t) t ↔ RowKept v.console key) ∧
      (RowKept v.console key → Follows width hWidth t (v.press width key)) := by
  obtain ⟨t, hStep, hKeeps⟩ := press_keeps sign h.keeps h.typed hAllowed
  have hSent := history_echo h.keeps h.typed hAllowed hStep
  have hScreen : screenOf width hWidth t =
      (screenOf width hWidth s).feedAll (historyEcho v.console key) := by
    rw [screenOf, hSent, Screen.feedAll_append]
    rfl
  have hTyped := press_typed h.typed hAllowed
  obtain ⟨hIff, before, after, hShown⟩ := key_displayed_iff h.screen h.typed h.fits hAllowed
  rw [← hScreen] at hIff hShown
  refine ⟨t, hStep, hKeeps, hTyped, hShown.above, ?_, fun hKept => ?_⟩
  · rw [agrees_iff_displayed (v := v.press width key) hKeeps.line hShown]
    exact hIff
  · exact ⟨hKeeps, hTyped, ⟨h.fits.wide, hAllowed.fits⟩, hIff.mpr hKept⟩

theorem view_console (width : Nat) (keys : List HistoryKey) :
    (view width keys).console = console keys := by
  have hFold (v : View) : (keys.foldl (View.press width) v).console =
      keys.foldl TelnetDebug.press v.console := by
    induction keys generalizing v with
    | nil => rfl
    | cons key keys ih => exact ih (v.press width key)
  exact hFold (.opened width)

/-- Typed keys, history keys and Enter, in any order within the history, as long
as after each of them the row showed the line: then the row with the cursor reads
the prompt and the line buffer, the rows above it are the prompts and lines
entered so far, and after the next key the row shows the line if and only if
nothing of the old line stands behind the new one to the right of the cursor,
or, when the key cannot move, the row showed that line before. What the executed
commands write themselves is left out of the screen. -/
theorem screen_agrees_iff (sign : CharSign) {width : Nat} (hWidth : 0 < width)
    (hWide : debugShell.length + 255 < width) {keys : List HistoryKey}
    (hKeys : WithinHistory keys) {taken : List HistoryKey} {key : HistoryKey}
    (hTaken : taken ++ [key] <+: keys)
    (hKept : ∀ before next, before ++ [next] <+: taken → RowKept (console before) next) :
    ∃ s t, shellThreadFunc sign .init (taken.map historyRead) = .ok s ∧
      s.step sign (historyRead key) = .ok t ∧
      ScreenAgrees width (screenOf width hWidth s) s ∧
      (screenOf width hWidth s).above = (view width taken).above ∧
      (screenOf width hWidth t).above = (view width (taken ++ [key])).above ∧
      (ScreenAgrees width (screenOf width hWidth t) t ↔ RowKept (console taken) key) := by
  have hStart : Follows width hWidth .init (.opened width) :=
    ⟨keeps_init, typed_empty, ⟨hWide, Nat.zero_le _⟩, opened_displayed hWide hWidth⟩
  have hNext : ∀ (s : Session) (v : View) (next : HistoryKey), Follows width hWidth s v →
      (Allowed v.console next ∧ RowKept v.console next) →
      ∃ t, s.step sign (historyRead next) = .ok t ∧
        Follows width hWidth t (v.press width next) := by
    intro s v next h hNext
    obtain ⟨t, hStep, -, -, -, -, hFollows⟩ := h.step sign hNext.1
    exact ⟨t, hStep, hFollows hNext.2⟩
  have hMeets : ∀ before next, before ++ [next] <+: taken →
      Allowed (view width before).console next ∧ RowKept (view width before).console next := by
    intro before next hPrefix
    rw [view_console]
    have hAll := (hPrefix.trans (List.prefix_append taken [key])).trans hTaken
    exact ⟨hKeys.allowed hAll, hKept before next hPrefix⟩
  obtain ⟨s, hRun, hFollows⟩ := run_simulates hNext hStart hMeets
  have hConsole : (view width taken).console = console taken := view_console width taken
  have hAllowed : Allowed (view width taken).console key := by
    rw [hConsole]
    exact hKeys.allowed hTaken
  obtain ⟨t, hStep, -, -, hAbove, hAgrees, -⟩ := hFollows.step sign hAllowed
  rw [shellThreadFunc, run_map]
  refine ⟨s, t, hRun, hStep, ?_, hFollows.screen.above, ?_, ?_⟩
  · exact (agrees_iff_displayed hFollows.keeps.line hFollows.screen).mpr hFollows.screen
  · rw [view, List.foldl_concat]
    exact hAbove
  · rw [← hConsole]
    exact hAgrees

/-- The keys of a sequence, one after the other. -/
theorem kept_of_steps {taken : List HistoryKey}
    (h : ∀ i : Fin taken.length, RowKept (console (taken.take i)) (taken.get i))
    {before : List HistoryKey} {next : HistoryKey} (hPrefix : before ++ [next] <+: taken) :
    RowKept (console before) next := by
  obtain ⟨rest, rfl⟩ := hPrefix
  have hStep := h ⟨before.length, by simp⟩
  simpa using hStep

/-- A line that Up takes out of the line buffer. -/
def discardedKeys : List HistoryKey := [.edit (.char 0x61 typable_a), .up]

/-- A line is recalled, edited and replaced by the next one; a line typed in a
fresh session is not taken off the screen by Up. -/
theorem screen_agrees_typed :
    (∃ s t, shellThreadFunc .signed .init (storedKeys.dropLast.map historyRead) = .ok s ∧
      s.step .signed (historyRead .down) = .ok t ∧
      ScreenAgrees 300 (screenOf 300 (by decide) t) t) ∧
    ∃ s t, shellThreadFunc .signed .init
        (discardedKeys.dropLast.map historyRead) = .ok s ∧
      s.step .signed (historyRead .up) = .ok t ∧
      ¬ScreenAgrees 300 (screenOf 300 (by decide) t) t := by
  have hWide : debugShell.length + 255 < 300 := by decide
  have hStored : WithinHistory storedKeys :=
    .of_inits (by decide) (by decide) (by decide) (by decide)
  have hTyped : WithinHistory discardedKeys :=
    .of_inits (by decide) (by decide) (by decide) (by decide)
  have hLast : storedKeys.dropLast ++ [.down] <+: storedKeys := ⟨[], rfl⟩
  have hUp : discardedKeys.dropLast ++ [.up] <+: discardedKeys := ⟨[], rfl⟩
  have hKept (i : Fin storedKeys.dropLast.length) :
      RowKept (console (storedKeys.dropLast.take i)) (storedKeys.dropLast.get i) := by
    revert i
    decide +kernel
  have hEdits (i : Fin discardedKeys.dropLast.length) :
      RowKept (console (discardedKeys.dropLast.take i)) (discardedKeys.dropLast.get i) := by
    revert i
    decide +kernel
  constructor
  · obtain ⟨s, t, hRun, hStep, -, -, -, hAgrees⟩ := screen_agrees_iff .signed (by decide) hWide
      hStored hLast fun _ _ => kept_of_steps hKept
    exact ⟨s, t, hRun, hStep, hAgrees.mpr (by decide +kernel)⟩
  · obtain ⟨s, t, hRun, hStep, -, -, -, hAgrees⟩ := screen_agrees_iff .signed (by decide) hWide
      hTyped hUp fun _ _ => kept_of_steps hEdits
    exact ⟨s, t, hRun, hStep, fun h => absurd (hAgrees.mp h) (by decide +kernel)⟩

end TelnetDebug
