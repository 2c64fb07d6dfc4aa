import TelnetDebug.Session.LineEditor
import TelnetDebug.Session.HistoryKeys
import TelnetDebug.Library.CommandHistory

/-! The session as an editor with a history. Every entry of the array shows the
line at its position, and the entries behind the last one are cleared: Down
reads one of them when it leaves the last line. -/
namespace TelnetDebug

open CBuffer Guarded LineZipper CommandHistory

abbrev HistoryKey := CommandHistory.Key EditKey

/-- The read that delivers the key. -/
def historyRead : HistoryKey → ReadResult
  | .edit key => key.read
  | .up => .data [0x1b, 0x5b, 0x41] (by decide)
  | .down => .data [0x1b, 0x5b, 0x42] (by decide)
  | .enter => .byte 13

def press : Console UInt8 → HistoryKey → Console UInt8 := Console.press EditKey.apply

/-- The editor after a sequence of keys. -/
def console (keys : List HistoryKey) : Console UInt8 := keys.foldl press .empty

/-- A line in a cleared array. -/
def padded (line : List UInt8) : List UInt8 := line ++ List.replicate (maxCmdLen - line.length) 0

/-- A line that can be entered and recalled. -/
structure IsCommand (line : List UInt8) : Prop where
  typed : ∀ c ∈ line, Typable c
  short : line.length ≤ 240

/-- The entry at a position of the array holds a line and its length. -/
def Holds (history : CmdQueue) (i : Nat) (line : List UInt8) : Prop :=
  ∃ e : InCmd, history.queueCmd.cells[i]? = some e ∧ e.cmd.cells = padded line ∧
    e.size.toNat = line.length

/-- The session keeps the line and the history of the editor. -/
structure Keeps (s : Session) (c : Console UInt8) : Prop where
  line : ShowsLine s c.line
  num : s.mgr.hasInputCmdNum.toNat = c.entered.length
  all : s.mgr.historyCmd.allCmdNum = s.mgr.hasInputCmdNum
  index : s.mgr.cmdIndex.toNat = c.index
  entries : ∀ i < maxCmdHistoryNum, Holds s.mgr.historyCmd i (c.entry i)
  gCmd : s.mgr.gCmd.cells = padded c.recalled
  executed : s.executed = c.entered
  isOpen : s.closed = false

/-- Only characters that can be typed are on the line and in the history. -/
structure Typed (c : Console UInt8) : Prop where
  line : ∀ d ∈ c.line.text, Typable d
  entered : ∀ line ∈ c.entered, IsCommand line
  recalled : IsCommand c.recalled

/-- The keys the history has room for. -/
structure Allowed (c : Console UInt8) (key : HistoryKey) : Prop where
  fits : (press c key).line.text.length ≤ 255
  short : ∀ line ∈ (press c key).entered, line.length ≤ 240
  runs : ∀ line ∈ (press c key).entered, line ≠ ascii "quit" ∧ line ≠ ascii "exit"
  room : (press c key).entered.length ≤ maxCmdHistoryNum
  next : key = .down → c.entered.length < maxCmdHistoryNum

theorem IsCommand.noNul {line : List UInt8} (h : IsCommand line) : 0 ∉ line :=
  fun hNul => (h.typed 0 hNul).ne_zero rfl

theorem IsCommand.fits {line : List UInt8} (h : IsCommand line) : line.length < maxCmdLen := by
  have hMax := maxCmdLen_eq
  have hShort := h.short
  omega

theorem isCommand_nil : IsCommand [] := ⟨by simp, Nat.zero_le _⟩

theorem padded_split {line : List UInt8} (h : line.length < maxCmdLen) :
    padded line = line ++ 0 :: List.replicate (maxCmdLen - line.length - 1) 0 := by
  rw [padded, ← List.replicate_succ]
  congr 2
  omega

section Padded
variable {line : List UInt8} (h : IsCommand line)
include h

theorem terminated_padded : Terminated (padded line) := by
  rw [padded_split h.fits]
  exact terminated_append_zero _ _

theorem text_padded : text (padded line) = line := by
  rw [padded_split h.fits]
  exact text_append_zero h.noNul _

theorem showsLine_ofLine {s : Session} (hCells : s.cmdBuf.cells = padded line)
    (hCursor : s.mgr.moveLeftNum = 0) : ShowsLine s (.ofLine line) := by
  refine ⟨?_, by rw [hCursor]; rfl, by rw [Zipper.text_ofLine]; exact h.noNul,
    by rw [Zipper.text_ofLine]; exact h.fits⟩
  rw [hCells, Zipper.text_ofLine]
  simp [Zipper.ofLine, padded]

theorem reload_padded {s : Session} (hG : s.mgr.gCmd.cells = padded line) :
    ∃ buf, s.reload = .ok { s with cmdBuf := buf } ∧ buf.cells = padded line := by
  have hTerm : Terminated s.mgr.gCmd.cells := by
    rw [hG]
    exact terminated_padded h
  refine ⟨_, Session.reload_eq hTerm, ?_⟩
  rw [Buffer.cells_fill, hG, text_padded h]
  rfl

end Padded

theorem Typed.entry {c : Console UInt8} (h : Typed c) (i : Nat) : IsCommand (c.entry i) := by
  by_cases hi : i < c.entered.length
  · exact h.entered _ (c.entry_mem hi)
  · rw [c.entry_end (Nat.le_of_not_lt hi)]
    exact isCommand_nil

theorem Typed.stay {c : Console UInt8} (h : Typed c) : Typed c.stay where
  line := by
    change ∀ d ∈ (Zipper.ofLine c.recalled).text, Typable d
    rw [Zipper.text_ofLine]
    exact h.recalled.typed
  entered := h.entered
  recalled := h.recalled

theorem Typed.goto {c : Console UInt8} (h : Typed c) {i : Nat} (hLe : i ≤ c.entered.length) :
    Typed (c.goto i hLe) where
  line := by
    change ∀ d ∈ (Zipper.ofLine (c.entry i)).text, Typable d
    rw [Zipper.text_ofLine]
    exact (h.entry i).typed
  entered := h.entered
  recalled := h.entry i

theorem keeps_init : Keeps .init .empty where
  line := showsLine_empty rfl rfl
  num := rfl
  all := rfl
  index := rfl
  entries := by
    intro i hi
    refine ⟨⟨.const _ 0, 0⟩, ?_, rfl, rfl⟩
    change (List.replicate maxCmdHistoryNum _)[i]? = _
    rw [List.getElem?_replicate, if_pos hi]
  gCmd := rfl
  executed := rfl
  isOpen := rfl

theorem typed_empty : Typed .empty :=
  ⟨by simp [Console.empty], by simp [Console.empty], isCommand_nil⟩

section Steps
variable {sign : CharSign} {s : Session} {c : Console UInt8}

theorem edit_keeps (hKeeps : Keeps s c) {key : EditKey} (hAllowed : Allowed c (.edit key)) :
    ∃ t, s.step sign key.read = .ok t ∧ Keeps t (press c (.edit key)) := by
  obtain ⟨t, hStep, hEdited⟩ := edit_step sign hKeeps.line hKeeps.isOpen key
    (Nat.lt_succ_of_le hAllowed.fits)
  have hMgr := hEdited.only.mgr
  exact ⟨t, hStep,
    { line := hEdited.shows
      num := by rw [hMgr]; exact hKeeps.num
      all := by rw [hMgr]; exact hKeeps.all
      index := by rw [hMgr]; exact hKeeps.index
      entries := by rw [hMgr]; exact hKeeps.entries
      gCmd := by rw [hMgr]; exact hKeeps.gCmd
      executed := hEdited.only.executed.trans hKeeps.executed
      isOpen := hEdited.only.closed.trans hKeeps.isOpen }⟩

theorem reload_keeps {line : List UInt8} (hLine : IsCommand line)
    (hG : s.mgr.gCmd.cells = padded line)
    (hKeeps : ∀ buf : Line, buf.cells = padded line → Keeps { s with cmdBuf := buf } c) :
    ∃ t, s.reload = .ok t ∧ Keeps t c := by
  obtain ⟨buf, hReload, hCells⟩ := reload_padded hLine hG
  exact ⟨_, hReload, hKeeps buf hCells⟩

theorem stay_keeps (hKeeps : Keeps s c) (hTyped : Typed c) :
    ∃ t, (s.setCursor 0).reload = .ok t ∧ Keeps t c.stay := by
  refine reload_keeps hTyped.recalled hKeeps.gCmd fun buf hCells => ?_
  exact ⟨showsLine_ofLine hTyped.recalled hCells rfl, hKeeps.num, hKeeps.all,
    hKeeps.index, hKeeps.entries, hKeeps.gCmd, hKeeps.executed, hKeeps.isOpen⟩

theorem goto_keeps (hKeeps : Keeps s c) (hTyped : Typed c) {index : UInt32} {i : Nat}
    (hIndex : index.toNat = i) (hIn : i < maxCmdHistoryNum) (hLe : i ≤ c.entered.length) :
    ∃ t, recallCmd (s.setCursor 0) index >>= Session.reload = .ok t ∧ Keeps t (c.goto i hLe) := by
  have hEntry := hTyped.entry i
  obtain ⟨e, hCell, hCmd, hSize⟩ := hKeeps.entries i hIn
  have hText : text e.cmd.cells = c.entry i := by rw [hCmd, text_padded hEntry]
  have hTerm : Terminated e.cmd.cells := by
    rw [hCmd]
    exact terminated_padded hEntry
  have hAt : (s.setCursor 0).mgr.historyCmd.queueCmd.cells[index.toNat]? = some e := by
    rw [hIndex]
    exact hCell
  rw [recallCmd_spec hAt hTerm (by rw [hText]; exact hEntry.short), ok_bind]
  have hG : (Buffer.fill (n := maxCmdLen) (text e.cmd.cells)
      (Nat.le_of_lt (e.cmd.text_length_lt hTerm))).cells = padded (c.entry i) := by
    rw [Buffer.cells_fill, hText]
    rfl
  refine reload_keeps hEntry hG fun buf hCells => ?_
  exact ⟨showsLine_ofLine hEntry hCells rfl, hKeeps.num, hKeeps.all, hIndex,
    hKeeps.entries, hG, hKeeps.executed, hKeeps.isOpen⟩

theorem up_keeps (hKeeps : Keeps s c) (hTyped : Typed c)
    (hRoom : c.entered.length ≤ maxCmdHistoryNum) :
    ∃ t, s.onUp = .ok t ∧ Keeps t c.up := by
  have hLe := c.index_le
  have hIndex := hKeeps.index
  have hZero : s.mgr.cmdIndex = 0 ↔ c.index = 0 := by
    rw [← UInt32.toNat_inj, hIndex]
    rfl
  rw [onUp_eq]
  by_cases hFirst : c.index = 0
  · rw [if_pos (hZero.mpr hFirst), Console.up_first hFirst]
    exact stay_keeps hKeeps hTyped
  · rw [if_neg fun h => hFirst (hZero.mp h), Console.up_move hFirst]
    refine goto_keeps hKeeps hTyped ?_ (by omega) _
    rw [toNat_pred fun h => hFirst (hZero.mp h), hIndex]

theorem down_keeps (hKeeps : Keeps s c) (hTyped : Typed c)
    (hRoom : c.entered.length < maxCmdHistoryNum) :
    ∃ t, s.onDown = .ok t ∧ Keeps t c.down := by
  have hLe := c.index_le
  have hIndex := hKeeps.index
  have hEnd : s.mgr.cmdIndex = s.mgr.hasInputCmdNum ↔ c.index = c.entered.length := by
    rw [← UInt32.toNat_inj, hIndex, hKeeps.num]
  rw [onDown_eq]
  by_cases hLast : c.index = c.entered.length
  · rw [if_pos (hEnd.mpr hLast), Console.down_last hLast]
    exact stay_keeps hKeeps hTyped
  · rw [if_neg fun h => hLast (hEnd.mp h), Console.down_move hLast]
    refine goto_keeps hKeeps hTyped ?_ (by omega) _
    rw [toNat_succ_num (by omega), hIndex]

theorem entry_append (c : Console UInt8) (line : List UInt8) (i : Nat) :
    (c.entered ++ [line]).getD i [] = if i = c.entered.length then line else c.entry i := by
  rw [Console.entry, List.getD_eq_getElem?_getD, List.getD_eq_getElem?_getD]
  by_cases h : i < c.entered.length
  · rw [List.getElem?_append_left h, if_neg (Nat.ne_of_lt h)]
  · rw [List.getElem?_append_right (Nat.le_of_not_lt h)]
    by_cases hEnd : i = c.entered.length
    · rw [if_pos hEnd, hEnd, Nat.sub_self]
      rfl
    · rw [if_neg hEnd, List.getElem?_eq_none (by rw [List.length_singleton]; omega),
        List.getElem?_eq_none (Nat.le_of_not_lt h)]

/-- A line that is executed is stored in the first cleared entry. -/
theorem cmdOver_keeps (hTerm : Terminated s.cmdBuf.cells)
    (hText : text s.cmdBuf.cells = c.line.text) (hCursor : s.mgr.moveLeftNum = 0)
    (hG : s.mgr.gCmd.cells = padded c.line.text)
    (hNum : s.mgr.hasInputCmdNum.toNat = c.entered.length)
    (hEntries : ∀ i < maxCmdHistoryNum, Holds s.mgr.historyCmd i (c.entry i))
    (hExecuted : s.executed = c.entered) (hOpen : s.closed = false)
    (hLine : IsCommand c.line.text) (hRoom : c.entered.length < maxCmdHistoryNum)
    (hSome : c.line.text ≠ [])
    (hRuns : c.line.text ≠ ascii "quit" ∧ c.line.text ≠ ascii "exit") :
    ∃ t, s.cmdOver = .ok t ∧ Keeps t c.enter := by
  obtain ⟨e, hCell, hCmd, -⟩ := hEntries c.entered.length hRoom
  rw [c.entry_end (Nat.le_refl _)] at hCmd
  have hReturn : s.cmdBuf.peek 0 ≠ 13 := by
    obtain ⟨rest, hSplit⟩ := hTerm.split
    rw [hText] at hSplit
    cases hCells : c.line.text with
    | nil => exact absurd hCells hSome
    | cons d line =>
        rw [hCells] at hSplit
        rw [Buffer.peek, hSplit]
        exact (hLine.typed d (by rw [hCells]; exact List.mem_cons_self)).ne_return
  have hFree : s.mgr.historyCmd.queueCmd.cells[s.mgr.hasInputCmdNum.toNat]? = some e := by
    rwa [hNum]
  obtain ⟨stored, queue, hOver, hStored, hQueue⟩ :=
    cmdOver_spec hTerm hReturn (by rwa [hText]) hFree
  rw [hText, hCmd] at hStored
  rw [hText, hNum] at hQueue
  have hNext : (s.mgr.hasInputCmdNum + 1).toNat = c.entered.length + 1 := by
    rw [toNat_succ_num (by omega), hNum]
  refine ⟨_, hOver, ?_⟩
  rw [Console.enter_line hSome]
  refine ⟨showsLine_empty rfl hCursor, ?_, rfl, hNext, ?entries, hG, ?_, hOpen⟩
  case entries =>
    intro i hi
    change Holds ⟨_, queue⟩ i ((c.entered ++ [c.line.text]).getD i [])
    rw [Holds, hQueue, entry_append]
    by_cases hEnd : i = c.entered.length
    · subst hEnd
      have hIn := (List.getElem?_eq_some_iff.mp hCell).1
      have hFits := hLine.fits
      refine ⟨_, List.getElem?_set_self hIn, ?_, ?_⟩
      · rw [if_pos rfl, hStored, padded_split hFits]
        congr 2
        simp [padded]
        omega
      · rw [if_pos rfl]
        exact toNat_ofNat_line (Nat.le_of_lt hFits)
    · rw [List.getElem?_set_ne (Ne.symm hEnd), if_neg hEnd]
      exact hEntries i hi
  · change (s.mgr.hasInputCmdNum + 1).toNat = (c.entered ++ [c.line.text]).length
    rw [List.length_append, List.length_singleton, hNext]
  · change s.executed ++ [text s.cmdBuf.cells] = _
    rw [hText, hExecuted]

theorem enter_keeps (hKeeps : Keeps s c) (hTyped : Typed c) (hAllowed : Allowed c .enter) :
    ∃ t, s.onEnter = .ok t ∧ Keeps t c.enter := by
  have hTerm := hKeeps.line.terminated
  have hText := hKeeps.line.text
  by_cases hSome : c.line.text = []
  · rw [onEnter_empty hTerm (hText.trans hSome), Console.enter_empty hSome]
    have hCursor : s.mgr.moveLeftNum = 0 :=
      hKeeps.line.cursor_eq_zero.mpr (List.append_eq_nil_iff.mp hSome).2
    have hLine : ShowsLine (s.setCursor 0) c.line :=
      ⟨hKeeps.line.cells, by rw [← hKeeps.line.cursor, hCursor]; rfl, hKeeps.line.noNul,
        hKeeps.line.fits⟩
    exact ⟨_, rfl, ⟨hLine.cells, hLine.cursor, hLine.noNul, hLine.fits⟩, hKeeps.num, hKeeps.all,
      hKeeps.index, hKeeps.entries, hKeeps.gCmd, hKeeps.executed, hKeeps.isOpen⟩
  · have hMem : c.line.text ∈ (press c .enter).entered := by
      change _ ∈ c.enter.entered
      rw [Console.enter_line hSome]
      exact List.mem_append_right _ (List.mem_singleton_self _)
    have hRoom : c.entered.length < maxCmdHistoryNum := by
      have h := hAllowed.room
      change c.enter.entered.length ≤ _ at h
      rw [Console.enter_line hSome, List.length_append] at h
      exact h
    rw [onEnter_spec hTerm (by rwa [hText])]
    refine cmdOver_keeps hTerm hText rfl ?_ hKeeps.num hKeeps.entries hKeeps.executed hKeeps.isOpen
      ⟨hTyped.line, hAllowed.short _ hMem⟩ hRoom hSome (hAllowed.runs _ hMem)
    have hFits := Nat.le_of_lt (s.cmdBuf.text_length_lt hTerm)
    change (Buffer.fill (text s.cmdBuf.cells) hFits).cells = _
    rw [Buffer.cells_fill, hText]
    rfl

theorem keyRead_up (sign : CharSign) : keyRead sign (historyRead .up) = .up := by
  cases sign <;> decide +kernel

theorem keyRead_down (sign : CharSign) : keyRead sign (historyRead .down) = .down := by
  cases sign <;> decide +kernel

theorem step_enter (hOpen : s.closed = false) (hTerm : Terminated s.cmdBuf.cells) :
    s.step sign (.byte 13) = s.onEnter := by
  have hKey : keyRead sign (.byte 13) = .other := by cases sign <;> decide +kernel
  have hPeek : (lineRead sign (.byte 13)).peek 0 = 13 := by cases sign <;> decide +kernel
  have hValue : sign.value 13 = 13 := by cases sign <;> decide
  rw [step_key hOpen (ReadResult.byte_terminated 13) hKey]
  change s.onOther sign _ = _
  unfold Session.onOther
  rw [midLine_eq hTerm, ok_bind]
  simp [hPeek, hValue]

theorem step_return (hKeeps : Keeps s c) : s.step sign (.byte 13) = s.onEnter :=
  step_enter hKeeps.isOpen hKeeps.line.terminated

/-- Every key acts on the session as it acts on the editor. -/
theorem press_keeps (sign : CharSign) (hKeeps : Keeps s c) (hTyped : Typed c) {key : HistoryKey}
    (hAllowed : Allowed c key) :
    ∃ t, s.step sign (historyRead key) = .ok t ∧ Keeps t (press c key) := by
  cases key with
  | edit key => exact edit_keeps hKeeps hAllowed
  | up =>
      rw [step_key hKeeps.isOpen (by decide +kernel) (keyRead_up sign)]
      have hRoom := hAllowed.room
      change c.up.entered.length ≤ _ at hRoom
      rw [c.up_entered] at hRoom
      exact up_keeps hKeeps hTyped hRoom
  | down =>
      rw [step_key hKeeps.isOpen (by decide +kernel) (keyRead_down sign)]
      exact down_keeps hKeeps hTyped (hAllowed.next rfl)
  | enter =>
      change ∃ t, s.step sign (.byte 13) = .ok t ∧ _
      rw [step_return hKeeps]
      exact enter_keeps hKeeps hTyped hAllowed

end Steps

theorem EditKey.typed {z : Zipper UInt8} (h : ∀ d ∈ z.text, Typable d) (key : EditKey) :
    ∀ d ∈ (EditKey.apply z key).text, Typable d := by
  intro d hd
  cases key with
  | char c hTypable =>
      rcases Zipper.mem_text_insert.mp hd with rfl | hd
      · exact hTypable
      · exact h d hd
  | left =>
      change d ∈ z.left.text at hd
      rw [Zipper.text_left] at hd
      exact h d hd
  | right =>
      change d ∈ z.right.text at hd
      rw [Zipper.text_right] at hd
      exact h d hd
  | backspace c _ => exact h d (Zipper.mem_of_mem_erase hd)

theorem press_typed {c : Console UInt8} {key : HistoryKey} (hTyped : Typed c)
    (hAllowed : Allowed c key) : Typed (press c key) := by
  cases key with
  | edit key => exact ⟨EditKey.typed hTyped.line key, hTyped.entered, hTyped.recalled⟩
  | up =>
      change Typed c.up
      by_cases hFirst : c.index = 0
      · rw [Console.up_first hFirst]
        exact hTyped.stay
      · rw [Console.up_move hFirst]
        exact hTyped.goto _
  | down =>
      change Typed c.down
      by_cases hLast : c.index = c.entered.length
      · rw [Console.down_last hLast]
        exact hTyped.stay
      · rw [Console.down_move hLast]
        exact hTyped.goto _
  | enter =>
      have hShort := hAllowed.short
      change ∀ line ∈ c.enter.entered, _ at hShort
      change Typed c.enter
      by_cases hSome : c.line.text = []
      · rwa [Console.enter_empty hSome]
      · rw [Console.enter_line hSome] at hShort ⊢
        have hLine : IsCommand c.line.text :=
          ⟨hTyped.line, hShort _ (List.mem_append_right _ (List.mem_singleton_self _))⟩
        refine ⟨by simp [Zipper.text_empty], ?_, hLine⟩
        intro line hMem
        rcases List.mem_append.mp hMem with h | h
        · exact hTyped.entered line h
        · rw [List.mem_singleton.mp h]
          exact hLine

/-- The sequences of keys that stay within the line and the history: the line is
never longer than its buffer, and fewer than 500 lines are entered, each of at
most 240 characters and none of them ending the session. -/
structure WithinHistory (keys : List HistoryKey) : Prop where
  fits : ∀ taken, taken <+: keys → (console taken).line.text.length ≤ 255
  short : ∀ line ∈ (console keys).entered, line.length ≤ 240
  few : (console keys).entered.length < maxCmdHistoryNum
  runs : ∀ line ∈ (console keys).entered, line ≠ ascii "quit" ∧ line ≠ ascii "exit"

/-- For given keys the lengths are those after each of the finitely many prefixes. -/
theorem WithinHistory.of_inits {keys : List HistoryKey}
    (hFits : ∀ taken ∈ keys.inits, (console taken).line.text.length ≤ 255)
    (hShort : ∀ line ∈ (console keys).entered, line.length ≤ 240)
    (hFew : (console keys).entered.length < maxCmdHistoryNum)
    (hRuns : ∀ line ∈ (console keys).entered, line ≠ ascii "quit" ∧ line ≠ ascii "exit") :
    WithinHistory keys :=
  ⟨fun taken hPrefix => hFits taken ((List.mem_inits taken keys).mpr hPrefix), hShort, hFew, hRuns⟩

theorem console_append (taken rest : List HistoryKey) :
    console (taken ++ rest) = rest.foldl press (console taken) := List.foldl_append

theorem console_entered_grows {taken keys : List HistoryKey} (h : taken <+: keys) :
    (console taken).entered <+: (console keys).entered := by
  obtain ⟨rest, rfl⟩ := h
  rw [console_append]
  exact Console.entered_grows _ _ _

theorem WithinHistory.allowed {keys taken : List HistoryKey} {key : HistoryKey}
    (h : WithinHistory keys) (hPrefix : taken ++ [key] <+: keys) :
    Allowed (console taken) key := by
  have hNext : press (console taken) key = console (taken ++ [key]) :=
    (console_append taken [key]).symm
  have hEntered := console_entered_grows hPrefix
  have hBefore := (console_entered_grows ((List.prefix_append taken [key]).trans hPrefix)).length_le
  have hFew := h.few
  refine ⟨?_, ?_, ?_, ?_, fun _ => by omega⟩
  · rw [hNext]
    exact h.fits _ hPrefix
  · rw [hNext]
    exact fun line hLine => h.short line (hEntered.subset hLine)
  · rw [hNext]
    exact fun line hLine => h.runs line (hEntered.subset hLine)
  · rw [hNext]
    exact Nat.le_of_lt (Nat.lt_of_le_of_lt hEntered.length_le hFew)

/-- A run of allowed keys. -/
theorem run_keeps (sign : CharSign) {s : Session} {c : Console UInt8} {keys : List HistoryKey}
    (hKeeps : Keeps s c) (hTyped : Typed c)
    (hAllowed : ∀ taken key, taken ++ [key] <+: keys → Allowed (taken.foldl press c) key) :
    ∃ t, shellThreadFunc sign s (keys.map historyRead) = .ok t ∧ Keeps t (keys.foldl press c) ∧
      Typed (keys.foldl press c) := by
  have hStep (s : Session) (c : Console UInt8) (key : HistoryKey) (hRel : Keeps s c ∧ Typed c)
      (hAllowed : Allowed c key) : ∃ t, s.step sign (historyRead key) = .ok t ∧
        Keeps t (press c key) ∧ Typed (press c key) := by
    obtain ⟨t, hStep, hKeeps⟩ := press_keeps sign hRel.1 hRel.2 hAllowed
    exact ⟨t, hStep, hKeeps, press_typed hRel.2 hAllowed⟩
  obtain ⟨t, hRun, hRel⟩ := run_simulates hStep ⟨hKeeps, hTyped⟩ hAllowed
  exact ⟨t, by rw [shellThreadFunc, run_map]; exact hRun, hRel⟩

theorem console_keeps (sign : CharSign) {keys taken : List HistoryKey} (h : WithinHistory keys)
    (hTaken : taken <+: keys) :
    ∃ s, shellThreadFunc sign .init (taken.map historyRead) = .ok s ∧ Keeps s (console taken) ∧
      Typed (console taken) :=
  run_keeps sign keeps_init typed_empty fun _ _ hPrefix => h.allowed (hPrefix.trans hTaken)

/-- The history holds the given lines and nothing else. -/
structure StoresLines (s : Session) (lines : List (List UInt8)) : Prop where
  num : s.mgr.hasInputCmdNum.toNat = lines.length
  all : s.mgr.historyCmd.allCmdNum.toNat = lines.length
  index : s.mgr.cmdIndex.toNat ≤ lines.length
  stored : ∀ i line, lines[i]? = some line → Holds s.mgr.historyCmd i line
  free : ∀ i, lines.length ≤ i → i < maxCmdHistoryNum → Holds s.mgr.historyCmd i []

/-- How one key moves the index and the number of lines. -/
def MovesIndex (s t : Session) : HistoryKey → Prop
  | .edit _ => t.mgr.cmdIndex = s.mgr.cmdIndex ∧ t.mgr.hasInputCmdNum = s.mgr.hasInputCmdNum
  | .up => t.mgr.cmdIndex.toNat = s.mgr.cmdIndex.toNat - 1 ∧
      t.mgr.hasInputCmdNum = s.mgr.hasInputCmdNum
  | .down => t.mgr.cmdIndex.toNat = min (s.mgr.cmdIndex.toNat + 1) s.mgr.hasInputCmdNum.toNat ∧
      t.mgr.hasInputCmdNum = s.mgr.hasInputCmdNum
  | .enter =>
      if text s.cmdBuf.cells = [] then
        t.mgr.cmdIndex = s.mgr.cmdIndex ∧ t.mgr.hasInputCmdNum = s.mgr.hasInputCmdNum
      else t.mgr.hasInputCmdNum.toNat = s.mgr.hasInputCmdNum.toNat + 1 ∧
        t.mgr.cmdIndex = t.mgr.hasInputCmdNum

/-- Since the last line was entered a history key moved the index. -/
def Moved (sign : CharSign) (taken : List HistoryKey) (s : Session) : Prop :=
  ∃ before key u v, before ++ [key] <+: taken ∧ key.navigates = true ∧
    shellThreadFunc sign .init (before.map historyRead) = .ok u ∧
    u.step sign (historyRead key) = .ok v ∧ v.mgr.cmdIndex ≠ u.mgr.cmdIndex ∧
    u.mgr.hasInputCmdNum = s.mgr.hasInputCmdNum

/-- The line buffer is the entry at the index, and the cursor is at its end. -/
structure ShowsEntry (s : Session) : Prop where
  line : ∃ e : InCmd, s.mgr.historyCmd.queueCmd.cells[s.mgr.cmdIndex.toNat]? = some e ∧
    s.cmdBuf.cells = e.cmd.cells
  last : s.mgr.cmdIndex = s.mgr.hasInputCmdNum → s.cmdBuf.cells = padded []
  cursor : s.mgr.moveLeftNum = 0

theorem Keeps.storesLines {s : Session} {c : Console UInt8} (h : Keeps s c)
    (hFew : c.entered.length ≤ maxCmdHistoryNum) : StoresLines s c.entered where
  num := h.num
  all := by rw [h.all, h.num]
  index := by
    rw [h.index]
    exact c.index_le
  stored := by
    intro i line hLine
    have hi := (List.getElem?_eq_some_iff.mp hLine).1
    have hEntry : c.entry i = line := by
      rw [Console.entry, List.getD_eq_getElem?_getD, hLine]
      rfl
    rw [← hEntry]
    exact h.entries i (Nat.lt_of_lt_of_le hi hFew)
  free := by
    intro i hEnd hi
    rw [← c.entry_end hEnd]
    exact h.entries i hi

theorem Keeps.movesIndex {s t : Session} {c : Console UInt8} {key : HistoryKey} (h : Keeps s c)
    (hNext : Keeps t (press c key)) : MovesIndex s t key := by
  have hIndex := hNext.index
  have hNum := hNext.num
  cases key with
  | edit key =>
      exact ⟨UInt32.toNat_inj.mp (hIndex.trans h.index.symm),
        UInt32.toNat_inj.mp (hNum.trans h.num.symm)⟩
  | up =>
      change _ = c.up.index at hIndex
      change _ = c.up.entered.length at hNum
      rw [c.up_index, ← h.index] at hIndex
      rw [c.up_entered, ← h.num] at hNum
      exact ⟨hIndex, UInt32.toNat_inj.mp hNum⟩
  | down =>
      change _ = c.down.index at hIndex
      change _ = c.down.entered.length at hNum
      rw [c.down_index, ← h.index, ← h.num] at hIndex
      rw [c.down_entered, ← h.num] at hNum
      exact ⟨hIndex, UInt32.toNat_inj.mp hNum⟩
  | enter =>
      change _ = c.enter.index at hIndex
      change _ = c.enter.entered.length at hNum
      unfold MovesIndex
      rw [h.line.text]
      by_cases hSome : c.line.text = []
      · rw [Console.enter_empty hSome] at hIndex hNum
        rw [if_pos hSome]
        exact ⟨UInt32.toNat_inj.mp (hIndex.trans h.index.symm),
          UInt32.toNat_inj.mp (hNum.trans h.num.symm)⟩
      · rw [Console.enter_line hSome] at hIndex hNum
        rw [if_neg hSome]
        rw [List.length_append, List.length_singleton] at hNum
        exact ⟨by rw [hNum, h.num], UInt32.toNat_inj.mp (hIndex.trans hNum.symm)⟩

theorem Keeps.showsEntry {s : Session} {c : Console UInt8} (h : Keeps s c)
    (hFew : c.entered.length < maxCmdHistoryNum) (hLoaded : c.Loaded) (hRecalls : c.Recalls) :
    ShowsEntry s := by
  have hCells : s.cmdBuf.cells = padded (c.entry c.index) := by
    rw [h.line.cells, hLoaded, hRecalls]
    simp [Zipper.ofLine, Zipper.text, padded]
  have hLe := c.index_le
  refine ⟨?_, ?_, ?_⟩
  · obtain ⟨e, hCell, hCmd, -⟩ := h.entries c.index (by omega)
    exact ⟨e, by rw [h.index]; exact hCell, by rw [hCells, hCmd]⟩
  · intro hLast
    have hIndex : c.index = c.entered.length := by rw [← h.index, ← h.num, hLast]
    rw [hCells, c.entry_end (Nat.le_of_eq hIndex.symm)]
  · exact h.line.cursor_eq_zero.mpr (by rw [hLoaded]; rfl)

/-- A key that moved the index since the last line was entered has left the
editor with the line of its position. -/
theorem Moved.recalls {sign : CharSign} {keys taken : List HistoryKey} {s : Session}
    (h : WithinHistory keys) (hTaken : taken <+: keys) (hKeeps : Keeps s (console taken))
    (hMoved : Moved sign taken s) : (console taken).Recalls := by
  obtain ⟨before, key, u, v, hPrefix, hNavigates, hBefore, hStep, hIndex, hNum⟩ := hMoved
  obtain ⟨u', hRun, hFirst, -⟩ := console_keeps sign h
    (((List.prefix_append before [key]).trans hPrefix).trans hTaken)
  rw [hBefore] at hRun
  cases hRun
  obtain ⟨v', hRun, hSecond, -⟩ := console_keeps sign h (hPrefix.trans hTaken)
  rw [List.map_append, shellThreadFunc, run_append, ← shellThreadFunc, hBefore, ok_bind,
    List.map_singleton, run_cons, hStep] at hRun
  cases hRun
  have hPress : press (console before) key = console (before ++ [key]) :=
    (console_append before [key]).symm
  have hSame : (console before).entered.length = (console taken).entered.length := by
    rw [← hFirst.num, ← hKeeps.num, hNum]
  have hLower := (console_entered_grows (List.prefix_append before [key])).length_le
  have hUpper := (console_entered_grows hPrefix).length_le
  have hMid : (console (before ++ [key])).Recalls := by
    rw [← hPress] at hSecond hLower hUpper ⊢
    refine Console.press_recalls EditKey.apply ?_ (.inr ⟨hNavigates, fun hEq => hIndex ?_⟩)
    · change (press (console before) key).entered.length = _
      omega
    · exact UInt32.toNat_inj.mp (by rw [hSecond.index, hFirst.index]; exact hEq)
  obtain ⟨rest, rfl⟩ := hPrefix
  rw [console_append]
  refine Console.run_recalls EditKey.apply ?_ hMid
  change (rest.foldl press (console (before ++ [key]))).entered.length = _
  rw [← console_append]
  omega

theorem loaded_of_navigates {taken : List HistoryKey} {key : HistoryKey}
    (h : key.navigates = true) : (console (taken ++ [key])).Loaded := by
  rw [console_append]
  cases key with
  | edit key => exact absurd h Bool.false_ne_true
  | up => exact Console.up_loaded _
  | down => exact Console.down_loaded _
  | enter => exact absurd h Bool.false_ne_true

/-- In every run of single keys within the history, after every key: the history
holds exactly the lines entered so far, in order, the index stays among them, each
key moves it as it should, and once a history key moved it, every history key
shows the entry it is at. -/
theorem history_store (sign : CharSign) {keys taken : List HistoryKey}
    (hKeys : WithinHistory keys) (hTaken : taken <+: keys) :
    ∃ s, shellThreadFunc sign .init (taken.map historyRead) = .ok s ∧
      StoresLines s (console taken).entered ∧ s.executed = (console taken).entered ∧
      (∀ key, taken ++ [key] <+: keys →
        ∃ t, s.step sign (historyRead key) = .ok t ∧ MovesIndex s t key) ∧
      (∀ before key, taken = before ++ [key] → key.navigates = true → Moved sign taken s →
        ShowsEntry s) := by
  obtain ⟨s, hRun, hKeeps, hTyped⟩ := console_keeps sign hKeys hTaken
  have hFew := Nat.lt_of_le_of_lt (console_entered_grows hTaken).length_le hKeys.few
  refine ⟨s, hRun, hKeeps.storesLines (Nat.le_of_lt hFew), hKeeps.executed, ?_, ?_⟩
  · intro key hPrefix
    obtain ⟨t, hStep, hNext⟩ := press_keeps sign hKeeps hTyped (hKeys.allowed hPrefix)
    exact ⟨t, hStep, hKeeps.movesIndex hNext⟩
  · intro before key hLast hNavigates hMoved
    refine hKeeps.showsEntry hFew ?_ (hMoved.recalls hKeys hTaken hKeeps)
    rw [hLast]
    exact loaded_of_navigates hNavigates

/-- Two lines, back to the first one, an edit of it, and forward again. -/
def storedKeys : List HistoryKey :=
  [.edit (.char 0x61 typable_a), .enter, .edit (.char 0x62 typable_b), .enter, .up, .up,
    .edit (.char 0x63 (by decide)), .down]

theorem history_store_typed :
    ∃ s, shellThreadFunc .signed .init (storedKeys.map historyRead) = .ok s ∧
      StoresLines s [ascii "a", ascii "b"] := by
  have hKeys : WithinHistory storedKeys := by
    refine ⟨fun taken hPrefix => ?_, by decide, by decide, by decide⟩
    exact (by decide : ∀ taken ∈ storedKeys.inits, (console taken).line.text.length ≤ 255) taken
      ((List.mem_inits taken storedKeys).mpr hPrefix)
  obtain ⟨s, hRun, hStores, -⟩ := history_store .signed hKeys List.prefix_rfl
  exact ⟨s, hRun, hStores⟩

end TelnetDebug
