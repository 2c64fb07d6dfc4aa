import TelnetDebug.Session.LatestCommand

/-! The history of a session over any reads. It holds the first lines that were
executed, as many as it has room for, and the history keys bring up nothing that
was not entered. -/
namespace TelnetDebug

open CBuffer Guarded CommandHistory

/-- The texts of all entries of the array. -/
def historyLines (s : Session) : List (List UInt8) :=
  s.mgr.historyCmd.queueCmd.cells.map fun entry => text entry.cmd.cells

/-- The lines that are handed to `proccess_cmd`. -/
structure Executable (line : List UInt8) : Prop where
  nonempty : line ≠ []
  short : line.length < maxCmdLen
  noNul : 0 ∉ line
  first : line.head? ≠ some 13
  runs : line ≠ ascii "quit" ∧ line ≠ ascii "exit"

/-- The recalled line, a line of the history, or a line that Enter throws away. -/
def Remembers (s : Session) (line : List UInt8) : Prop :=
  line = text s.mgr.gCmd.cells ∨ line ∈ historyLines s ∨ line.head? = some 13

/-- What a round does to the lines executed and remembered. -/
inductive Enters (s t : Session) : Prop where
  | none (hHistory : t.mgr.historyCmd = s.mgr.historyCmd)
      (hNum : t.mgr.hasInputCmdNum = s.mgr.hasInputCmdNum) (hExecuted : t.executed = s.executed)
      (hClosed : t.closed = s.closed) (hGCmd : Remembers s (text t.mgr.gCmd.cells))
  | quit (hClosed : t.closed = true)
  | line (line : List UInt8) (hLine : Executable line)
      (hExecuted : t.executed = s.executed ++ [line]) (hClosed : t.closed = s.closed)
      (hGCmd : text t.mgr.gCmd.cells = line)
      (hHistory : historyLines t = (historyLines s).set s.mgr.hasInputCmdNum.toNat line)

theorem text_head {line : Line} (h : text line.cells ≠ []) :
    (text line.cells).head? = some (line.peek 0) := by
  unfold text at h ⊢
  unfold Buffer.peek
  cases hCells : line.cells with
  | nil => simp [hCells] at h
  | cons c cells =>
      rw [hCells, List.takeWhile_cons] at h
      rw [List.takeWhile_cons]
      split
      · rfl
      · next hZero => simp [hZero] at h

/-- Enter has copied the line to `g_cmd`, and not looked at it yet. -/
structure Copied (s u : Session) : Prop where
  term : Terminated u.cmdBuf.cells
  nonempty : text u.cmdBuf.cells ≠ []
  gCmd : text u.mgr.gCmd.cells = text u.cmdBuf.cells
  history : u.mgr.historyCmd = s.mgr.historyCmd
  num : u.mgr.hasInputCmdNum = s.mgr.hasInputCmdNum
  executed : u.executed = s.executed
  closed : u.closed = s.closed

section Rounds
variable {s t u : Session}

theorem Enters.of_mgr (hMgr : t.mgr = (s.setCursor t.mgr.moveLeftNum).mgr)
    (hExecuted : t.executed = s.executed) (hClosed : t.closed = s.closed) : Enters s t := by
  refine .none ?_ ?_ hExecuted hClosed (.inl ?_)
  all_goals
    rw [hMgr]
    rfl

theorem updateHistoryCmd_lines {cmd : Line} (hTerm : Terminated cmd.cells) :
    ∃ m, updateHistoryCmd s cmd = .ok { s with mgr := m } ∧ m.gCmd = s.mgr.gCmd ∧
      m.historyCmd.queueCmd.cells.map (fun entry => text entry.cmd.cells) =
        (historyLines s).set s.mgr.hasInputCmdNum.toNat (text cmd.cells) := by
  by_cases hRoom : s.mgr.hasInputCmdNum.toNat < maxCmdHistoryNum
  · have hIndex : s.mgr.hasInputCmdNum.toNat < s.mgr.historyCmd.queueCmd.cells.length := by
      rwa [s.mgr.historyCmd.queueCmd.size]
    obtain ⟨stored, queue, hUpdate, hStored, hQueue⟩ :=
      updateHistoryCmd_free hTerm (List.getElem?_eq_getElem hIndex)
    refine ⟨_, hUpdate, rfl, ?_⟩
    change queue.cells.map _ = _
    rw [hQueue, List.map_set, hStored, text_append_zero (zero_notMem_text _)]
    rfl
  · have hFull := Nat.le_of_not_lt hRoom
    have hSize : (historyLines s).length ≤ s.mgr.hasInputCmdNum.toNat := by
      rwa [historyLines, List.length_map, s.mgr.historyCmd.queueCmd.size]
    exact ⟨s.mgr, updateHistoryCmd_full cmd hFull, rfl, (List.set_eq_of_length_le hSize).symm⟩

/-- A line that begins with a carriage return is thrown away. -/
theorem Copied.cmdOver (h : Copied s u) : Sat u.cmdOver (Enters s) (fun _ => True) := by
  have hHead := text_head h.nonempty
  unfold Session.cmdOver
  split
  · next hReturn =>
    obtain ⟨m, hUpdate, hKept, hLines⟩ := updateHistoryCmd_lines (s := u) h.term
    rw [hUpdate, ok_bind]
    dsimp only
    split
    · exact .quit rfl
    · next hRuns =>
      rw [Buffer.str_eq h.term, reading_ok, ok_bind, Session.prompt_eq]
      refine .line (text u.cmdBuf.cells) ?_ ?_ h.closed ?_ ?_
      · rw [Buffer.streq_iff (by decide), Buffer.streq_iff (by decide)] at hRuns
        constructor
        · exact h.nonempty
        · exact u.cmdBuf.text_length_lt h.term
        · exact zero_notMem_text _
        · rw [hHead]
          simpa using hReturn
        · exact ⟨fun hQuit => hRuns (.inl ⟨h.term, hQuit⟩),
            fun hExit => hRuns (.inr ⟨h.term, hExit⟩)⟩
      · rw [← h.executed]
        rfl
      · rw [← h.gCmd, ← hKept]
        rfl
      · have hSame : historyLines u = historyLines s := by
          rw [historyLines, h.history]
          rfl
        rw [← hSame, ← h.num, ← hLines]
        rfl
  · next hReturn =>
    refine .none h.history h.num h.executed h.closed (.inr (.inr ?_))
    rw [h.gCmd, hHead, not_not.mp hReturn]

theorem onEnter_enters (s : Session) : Sat s.onEnter (Enters s) (fun _ => True) := by
  by_cases hTerm : Terminated s.cmdBuf.cells
  · by_cases hSome : text s.cmdBuf.cells = []
    · rw [onEnter_empty hTerm hSome]
      exact .of_mgr rfl rfl rfl
    · rw [onEnter_spec hTerm hSome]
      apply Copied.cmdOver
      exact ⟨hTerm, hSome, text_fill (zero_notMem_text _)
        (Nat.le_of_lt (s.cmdBuf.text_length_lt hTerm)), rfl, rfl, rfl, rfl⟩
  · rw [onEnter_error hTerm]
    trivial

theorem entryText_line (history : CmdQueue) (index : UInt32) :
    Sat (entryText history index)
      (fun line => line ∈ history.queueCmd.cells.map (fun entry => text entry.cmd.cells) ∧ 0 ∉ line)
      (fun _ => True) := by
  unfold entryText
  refine sat_reading_bind (fun _ _ => trivial) fun entry hEntry => ?_
  by_cases hTerm : Terminated entry.cmd.cells
  · rw [Buffer.str_eq hTerm]
    exact ⟨List.mem_map.mpr ⟨entry, Buffer.mem_of_get hEntry, rfl⟩, zero_notMem_text _⟩
  · rw [Buffer.str, if_neg hTerm]
    trivial

theorem recallCmd_line (s : Session) (index : UInt32) :
    Sat (recallCmd s index)
      (fun t => Recalled s index t ∧ text t.mgr.gCmd.cells ∈ historyLines s) (fun _ => True) := by
  have hFrame := (recallCmd_frame s index).mono (fun _ h => h) fun _ _ => trivial
  have hLine : Sat (recallCmd s index) (fun t => text t.mgr.gCmd.cells ∈ historyLines s)
      (fun _ => True) := by
    unfold recallCmd
    refine (entryText_line _ _).bind fun shown _ => ?_
    refine sat_writing_bind (fun _ _ => trivial) fun buf _ => ?_
    refine (entryText_line _ _).bind fun line hLine => ?_
    refine sat_writing_bind (fun _ _ => trivial) fun gCmd hStore => ?_
    have hFits : line.length < maxCmdLen := by
      by_contra hLong
      rw [Buffer.store, dif_neg hLong] at hStore
      cases hStore
    rw [store_const hFits] at hStore
    cases hStore
    change text (Buffer.fill line (Nat.le_of_lt hFits)).cells ∈ _
    rw [text_fill hLine.2 (Nat.le_of_lt hFits)]
    exact hLine.1
  exact (hFrame.and hLine).mono (fun _ h => h) fun _ _ => trivial

/-- The line loaded by a history key is the one kept in `g_cmd`. -/
theorem reload_line (s : Session) :
    Sat s.reload (fun t => SameMgr s t ∧ text t.cmdBuf.cells = text s.mgr.gCmd.cells)
      (fun _ => True) := by
  by_cases hTerm : Terminated s.mgr.gCmd.cells
  · rw [Session.reload_eq hTerm]
    exact ⟨⟨rfl, rfl, rfl⟩, text_fill (zero_notMem_text _)
      (Nat.le_of_lt (s.mgr.gCmd.text_length_lt hTerm))⟩
  · unfold Session.reload
    rw [Buffer.str, if_neg hTerm]
    trivial

/-- What a history key does, and the line it leaves. -/
structure Brings (s t : Session) : Prop where
  enters : Enters s t
  executed : t.executed = s.executed
  line : Remembers s (text t.cmdBuf.cells)

theorem stay_brings : Sat (s.setCursor 0).reload (Brings s) (fun _ => True) := by
  refine (reload_line _).imp fun t h => ⟨?_, h.1.executed, .inl h.2⟩
  exact .of_mgr (by rw [h.1.mgr]; rfl) h.1.executed h.1.closed

theorem move_brings (index : UInt32) :
    Sat (recallCmd (s.setCursor 0) index >>= Session.reload) (Brings s) (fun _ => True) := by
  refine (recallCmd_line (s.setCursor 0) index).bind fun u ⟨hRecalled, hLine⟩ => ?_
  obtain ⟨gCmd, -, hMgr⟩ := hRecalled.mgr
  refine (reload_line u).imp fun t h => ?_
  have hKnown : Remembers s (text u.mgr.gCmd.cells) := .inr (.inl hLine)
  have hExecuted := h.1.executed.trans hRecalled.executed
  refine ⟨?_, hExecuted, ?_⟩
  · refine .none ?_ ?_ hExecuted (h.1.closed.trans hRecalled.closed) ?_
    · rw [h.1.mgr, hMgr]
      rfl
    · rw [h.1.mgr, hMgr]
      rfl
    · rwa [h.1.mgr]
  · rwa [h.2]

theorem onUp_brings (s : Session) : Sat s.onUp (Brings s) (fun _ => True) := by
  rw [onUp_eq]
  split
  · exact stay_brings
  · exact move_brings _

theorem onDown_brings (s : Session) : Sat s.onDown (Brings s) (fun _ => True) := by
  rw [onDown_eq]
  split
  · exact stay_brings
  · exact move_brings _

theorem step_enters (sign : CharSign) (s : Session) (r : ReadResult) :
    Sat (s.step sign r) (Enters s) (fun _ => True) := by
  apply step_mgr_sat
  · exact fun _ _ => trivial
  · exact fun _ => .of_mgr
  · exact fun _ => (onUp_brings s).imp fun _ h => h.enters
  · exact fun _ => (onDown_brings s).imp fun _ h => h.enters
  · exact fun _ => onEnter_enters s

end Rounds

section Runs
variable {sign : CharSign} {reads : List ReadResult} {s t : Session}

/-- No line, a line that was executed, or one that Enter throws away: it begins
with a carriage return. -/
def WasEntered (s : Session) (line : List UInt8) : Prop :=
  line = [] ∨ line ∈ s.executed ∨ line.head? = some 13

/-- The history holds the first lines executed, and the entries behind them are
empty. -/
structure HoldsExecuted (s : Session) : Prop where
  lines : historyLines s = s.executed.takeD maxCmdHistoryNum []
  gCmd : WasEntered s (text s.mgr.gCmd.cells)
  executed : ∀ line ∈ s.executed, Executable line

theorem holdsExecuted_init : HoldsExecuted .init where
  lines := by
    have hSlots : (Session.init.executed.takeD maxCmdHistoryNum []) =
        List.replicate maxCmdHistoryNum [] := List.takeD_nil ..
    rw [hSlots]
    exact List.map_replicate
  gCmd := .inl (text_fill (s := []) (List.not_mem_nil) (Nat.zero_le _))
  executed := List.forall_mem_nil _

theorem HoldsExecuted.known (h : HoldsExecuted s) {line : List UInt8} (hLine : Remembers s line) :
    WasEntered s line := by
  rcases hLine with rfl | hStored | hReturn
  · exact h.gCmd
  · rw [h.lines] at hStored
    rcases mem_takeD hStored with hExecuted | hEmpty
    · exact .inr (.inl hExecuted)
    · exact .inl hEmpty
  · exact .inr (.inr hReturn)

theorem Enters.holdsExecuted (hEnters : Enters s t) (hOpen : t.closed = false) (hCounts : Counts s)
    (h : s.closed = false → HoldsExecuted s) : HoldsExecuted t := by
  cases hEnters with
  | none hHistory hNum hExecuted hClosed hGCmd =>
      have hBefore := h (hClosed ▸ hOpen)
      constructor
      · rw [historyLines, hHistory, hExecuted]
        exact hBefore.lines
      · have hKnown := hBefore.known hGCmd
        unfold WasEntered at hKnown ⊢
        rwa [hExecuted]
      · rw [hExecuted]
        exact hBefore.executed
  | quit hClosed =>
      rw [hOpen] at hClosed
      cases hClosed
  | line line hLine hExecuted hClosed hGCmd hHistory =>
      have hBefore := h (hClosed ▸ hOpen)
      constructor
      · rw [hHistory, hBefore.lines, hCounts (hClosed ▸ hOpen), hExecuted]
        exact takeD_set ..
      · rw [hGCmd, WasEntered, hExecuted]
        exact .inr (.inl (List.mem_append_right _ (List.mem_singleton_self line)))
      · intro other hMem
        rw [hExecuted] at hMem
        rcases List.mem_append.mp hMem with hOld | hNew
        · exact hBefore.executed other hOld
        · rw [List.mem_singleton.mp hNew]
          exact hLine

theorem holdsExecuted_reached (hVisit : Visits (Session.step sign) .init reads s)
    (hOpen : s.closed = false) : HoldsExecuted s := by
  have hAll : Meets (Session.step sign) (fun _ _ => True) .init reads :=
    .of_forall fun _ _ => trivial
  let inv (s : Session) := Counts s ∧ (s.closed = false → HoldsExecuted s)
  have hStep (s : Session) (r : ReadResult) (h : inv s) (_ : True) :
      Sat (s.step sign r) inv (fun _ => True) := by
    refine ((step_enters sign s r).and (step_executes sign s r)).mono (fun t hBoth => ?_)
      fun _ _ => trivial
    exact ⟨hBoth.2.counts h.1, fun hOpen => hBoth.1.holdsExecuted hOpen h.1 h.2⟩
  have hInv : inv s := hVisit.invariant hStep ⟨fun _ => rfl, fun _ => holdsExecuted_init⟩ hAll
  exact hInv.2 hOpen

/-- In every open session, whatever was read, the history holds the first 500
lines that were executed, in order, and no others. A line that was executed is
not empty, fits the line buffer, and does not end the session. -/
theorem history_contents (hVisit : Visits (Session.step sign) .init reads s)
    (hOpen : s.closed = false) :
    historyLines s = s.executed.takeD maxCmdHistoryNum [] ∧
      s.mgr.hasInputCmdNum.toNat = min s.executed.length maxCmdHistoryNum ∧
      ∀ line ∈ s.executed, Executable line :=
  have h := holdsExecuted_reached hVisit hOpen
  ⟨h.lines, counts_reached hVisit hOpen, h.executed⟩

/-- In every open session, whatever was read, a history key puts on the line an
executed line, none, or one that Enter throws away; and it executes nothing. -/
theorem history_keys_bring (hVisit : Visits (Session.step sign) .init reads s)
    (hOpen : s.closed = false) {r : ReadResult}
    (hKey : keyRead sign r = .up ∨ keyRead sign r = .down) (hStep : s.step sign r = .ok t) :
    WasEntered s (text t.cmdBuf.cells) ∧ t.executed = s.executed := by
  have hBrings : Sat (s.step sign r) (Brings s) (fun _ => True) := by
    refine step_sat (fun hClosed => ?_) (fun _ => trivial) fun _ _ => ?_
    · rw [hOpen] at hClosed
      cases hClosed
    · rcases hKey with hUp | hDown
      · rw [hUp]
        exact onUp_brings s
      · rw [hDown]
        exact onDown_brings s
  rw [hStep] at hBrings
  exact ⟨(holdsExecuted_reached hVisit hOpen).known hBrings.line, hBrings.executed⟩

/-- Two lines, each with the bytes of its keys in one read, and a third that is
cut in two. -/
def threeLines : List ReadResult :=
  [.data (ascii "ab") (by decide), .byte 13, .data (ascii "c") (by decide), .byte 13,
    .data (ascii "d") (by decide), .data (ascii "ef") (by decide), .byte 13]

theorem history_contents_typed :
    ∃ s, shellThreadFunc .signed .init threeLines = .ok s ∧
      historyLines s = [ascii "ab", ascii "c", ascii "def"].takeD maxCmdHistoryNum [] := by
  obtain ⟨s, hRun, hLines, hOpen⟩ :=
    (by decide +kernel : Sat (shellThreadFunc .signed .init threeLines)
      (fun s => s.executed = [ascii "ab", ascii "c", ascii "def"] ∧ s.closed = false)
      (fun _ => False)).returns
  exact ⟨s, hRun, hLines ▸ (history_contents ⟨_, List.prefix_rfl, hRun⟩ hOpen).1⟩

theorem history_keys_bring_typed :
    ∃ s t, shellThreadFunc .signed .init threeLines = .ok s ∧
      s.step .signed (historyRead .up) = .ok t ∧ WasEntered s (text t.cmdBuf.cells) := by
  obtain ⟨s, hRun, hOpen⟩ :=
    (by decide +kernel : Sat (shellThreadFunc .signed .init threeLines)
      (fun s => s.closed = false) (fun _ => False)).returns
  obtain ⟨t, hBoth, -⟩ :=
    (by decide +kernel : Sat (shellThreadFunc .signed .init (threeLines ++ [historyRead .up]))
      (fun _ => True) (fun _ => False)).returns
  rw [shellThreadFunc, run_append, ← shellThreadFunc, hRun, ok_bind, run_cons] at hBoth
  obtain ⟨t', hStep, hEnd⟩ := bind_eq_ok.mp hBoth
  cases hEnd
  exact ⟨s, t, hRun, hStep, (history_keys_bring ⟨_, List.prefix_rfl, hRun⟩ hOpen
    (.inl (keyRead_up .signed)) hStep).1⟩

end Runs

end TelnetDebug
