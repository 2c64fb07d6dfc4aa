import TelnetDebug.Session.HistoryIndex

/-! The line executed last and Up. As long as the history has room, the number
of lines in it is the number of lines executed, and each line that is executed
becomes the entry in front of the position. A full history is not changed any
more: the lines that follow are executed and not recorded. -/
namespace TelnetDebug

open CBuffer Guarded CommandHistory

/-- A line was executed and recorded, or the history was full. -/
inductive Recorded (s t : Session) (line : List UInt8) : Prop where
  | stored (entry : InCmd) (hRoom : s.mgr.hasInputCmdNum.toNat < maxCmdHistoryNum)
      (hNum : t.mgr.hasInputCmdNum = s.mgr.hasInputCmdNum + 1)
      (hIndex : t.mgr.cmdIndex = s.mgr.hasInputCmdNum + 1)
      (hEntry : t.mgr.historyCmd.queueCmd.cells[s.mgr.hasInputCmdNum.toNat]? = some entry)
      (hTerm : Terminated entry.cmd.cells) (hLine : text entry.cmd.cells = line)
  | full (hFull : maxCmdHistoryNum ≤ s.mgr.hasInputCmdNum.toNat)
      (hHistory : t.mgr.historyCmd = s.mgr.historyCmd)
      (hNum : t.mgr.hasInputCmdNum = s.mgr.hasInputCmdNum)

/-- What a round does to the lines executed. -/
inductive Executes (s t : Session) : Prop where
  | none (hExecuted : t.executed = s.executed)
      (hNum : t.mgr.hasInputCmdNum = s.mgr.hasInputCmdNum) (hClosed : t.closed = s.closed)
  | quit (hExecuted : t.executed = s.executed) (hClosed : t.closed = true)
  | line (line : List UInt8) (hExecuted : t.executed = s.executed ++ [line])
      (hClosed : t.closed = s.closed) (hRecorded : Recorded s t line)

section Entering
variable {s : Session}

theorem updateHistoryCmd_records {cmd : Line} (hTerm : Terminated cmd.cells) :
    ∃ m, updateHistoryCmd s cmd = .ok { s with mgr := m } ∧
      ∀ t : Session, t.mgr = m → Recorded s t (text cmd.cells) := by
  by_cases hRoom : s.mgr.hasInputCmdNum.toNat < maxCmdHistoryNum
  · have hIndex : s.mgr.hasInputCmdNum.toNat < s.mgr.historyCmd.queueCmd.cells.length := by
      rwa [s.mgr.historyCmd.queueCmd.size]
    obtain ⟨stored, queue, hUpdate, hStored, hQueue⟩ :=
      updateHistoryCmd_free hTerm (List.getElem?_eq_getElem hIndex)
    refine ⟨_, hUpdate, fun t hMgr => .stored ⟨stored, UInt32.ofNat (text cmd.cells).length⟩ hRoom
      (by rw [hMgr]) (by rw [hMgr]) ?_ ?_ ?_⟩
    · rw [hMgr]
      change queue.cells[s.mgr.hasInputCmdNum.toNat]? = _
      rw [hQueue]
      exact List.getElem?_set_self hIndex
    · change Terminated stored.cells
      rw [hStored]
      exact terminated_append_zero _ _
    · change text stored.cells = _
      rw [hStored]
      exact text_append_zero (zero_notMem_text _) _
  · have hFull := Nat.le_of_not_lt hRoom
    exact ⟨s.mgr, updateHistoryCmd_full cmd hFull, fun t hMgr => .full hFull (by rw [hMgr])
      (by rw [hMgr])⟩

theorem cmdOver_executes (hTerm : Terminated s.cmdBuf.cells) :
    Sat s.cmdOver (Executes s) (fun _ => True) := by
  unfold Session.cmdOver
  split
  · obtain ⟨m, hUpdate, hRecorded⟩ := updateHistoryCmd_records (s := s) hTerm
    rw [hUpdate, ok_bind]
    dsimp only
    split
    · exact .quit rfl rfl
    · rw [Buffer.str_eq hTerm, reading_ok, ok_bind, Session.prompt_eq]
      exact .line _ rfl rfl (hRecorded _ rfl)
  · exact .none rfl rfl rfl

theorem onEnter_executes (s : Session) : Sat s.onEnter (Executes s) (fun _ => True) := by
  by_cases hTerm : Terminated s.cmdBuf.cells
  · by_cases hSome : text s.cmdBuf.cells = []
    · rw [onEnter_empty hTerm hSome]
      exact .none rfl rfl rfl
    · rw [onEnter_spec hTerm hSome]
      refine (cmdOver_executes (s := ((s.setCursor 0).setGCmd (.fill (text s.cmdBuf.cells)
        (Nat.le_of_lt (s.cmdBuf.text_length_lt hTerm)))).send (ascii "\r\n")) hTerm).mono
        (fun t h => ?_) fun _ h => h
      cases h with
      | none hExecuted hNum hClosed => exact .none hExecuted hNum hClosed
      | quit hExecuted hClosed => exact .quit hExecuted hClosed
      | line line hExecuted hClosed hRecorded =>
          refine .line line hExecuted hClosed ?_
          cases hRecorded with
          | stored entry hRoom hNum hIndex hEntry hTerm hLine =>
              exact .stored entry hRoom hNum hIndex hEntry hTerm hLine
          | full hFull hHistory hNum => exact .full hFull hHistory hNum
  · rw [onEnter_error hTerm]
    trivial

end Entering

theorem Navigated.executes {s t : Session} {index : UInt32} (h : Navigated s index t) :
    Executes s t := by
  obtain ⟨gCmd, -, hMgr⟩ := h.mgr
  exact .none h.executed (by rw [hMgr]; rfl) h.closed

theorem step_executes (sign : CharSign) (s : Session) (r : ReadResult) :
    Sat (s.step sign r) (Executes s) (fun _ => True) := by
  apply step_mgr_sat
  · exact fun _ _ => trivial
  · exact fun _ hMgr hExecuted hClosed => .none hExecuted (by rw [hMgr]; rfl) hClosed
  · intro _
    refine (onUp_sat (fun _ => trivial) fun _ => ?_).mono (fun _ h => h.executes) fun _ h => h
    exact (recallCmd_frame _ _).mono (fun _ h => h) fun _ _ => trivial
  · intro _
    refine (onDown_sat (fun _ => trivial) fun _ => ?_).mono (fun _ h => h.executes) fun _ h => h
    exact (recallCmd_frame _ _).mono (fun _ h => h) fun _ _ => trivial
  · exact fun _ => onEnter_executes s

/-- An open session has recorded the lines it executed, up to the capacity. -/
def Counts (s : Session) : Prop :=
  s.closed = false → s.mgr.hasInputCmdNum.toNat = min s.executed.length maxCmdHistoryNum

theorem Executes.counts {s t : Session} (h : Executes s t) (hCounts : Counts s) : Counts t := by
  intro hOpen
  cases h with
  | none hExecuted hNum hClosed => rw [hNum, hExecuted, hCounts (hClosed ▸ hOpen)]
  | quit hExecuted hClosed => rw [hClosed] at hOpen; cases hOpen
  | line line hExecuted hClosed hRecorded =>
      have hOld := hCounts (hClosed ▸ hOpen)
      rw [hExecuted, List.length_append, List.length_singleton]
      cases hRecorded with
      | stored entry hRoom hNum =>
          rw [hNum, toNat_succ_num hRoom]
          omega
      | full hFull hHistory hNum =>
          rw [hNum]
          omega

theorem counts_reached {sign : CharSign} {reads : List ReadResult} {s : Session}
    (hVisit : Visits (Session.step sign) .init reads s) : Counts s :=
  have hAll : Meets (Session.step sign) (fun _ _ => True) .init reads :=
    .of_forall fun _ _ => trivial
  hVisit.invariant
    (fun s r hCounts _ => (step_executes sign s r).mono (fun _ h => h.counts hCounts)
      fun _ _ => trivial)
    (fun _ => rfl) hAll

/-- Up at a position behind an entry that can be shown. -/
theorem onUp_recalls {s : Session} {entry : InCmd} (hIndex : s.mgr.cmdIndex ≠ 0)
    (hEntry : s.mgr.historyCmd.queueCmd.cells[(s.mgr.cmdIndex - 1).toNat]? = some entry)
    (hTerm : Terminated entry.cmd.cells) (hFits : (text entry.cmd.cells).length ≤ 240) :
    ∃ t, s.onUp = .ok t ∧ text t.cmdBuf.cells = text entry.cmd.cells ∧ t.executed = s.executed := by
  have hShort := Nat.le_of_lt (entry.cmd.text_length_lt hTerm)
  have hText := text_fill (zero_notMem_text entry.cmd.cells) hShort
  rw [onUp_eq, if_neg hIndex, recallCmd_spec (s := s.setCursor 0) hEntry hTerm hFits, ok_bind]
  rw [Session.reload_eq (terminated_fill (entry.cmd.text_length_lt hTerm))]
  refine ⟨_, rfl, ?_, rfl⟩
  rw [text_fill (zero_notMem_text _)]
  exact hText

/-- Up right after the execution of a line of at most 240 characters brings it
back, as long as at most 500 lines have been executed. From then on any line that
is executed leaves the history as it is. -/
theorem latest_command_recalled (sign : CharSign) {reads : List ReadResult} {s t : Session}
    (hVisit : Visits (Session.step sign) .init reads s) {enter : ReadResult}
    (hStep : s.step sign enter = .ok t) {line : List UInt8}
    (hExecuted : t.executed = s.executed ++ [line]) :
    (line.length ≤ 240 → t.executed.length ≤ maxCmdHistoryNum →
      ∀ up : ReadResult, Terminated up.cmdLine.cells → keyRead sign up = .up →
        ∃ u, t.step sign up = .ok u ∧ text u.cmdBuf.cells = line) ∧
    (maxCmdHistoryNum < t.executed.length →
      t.mgr.historyCmd = s.mgr.historyCmd ∧ t.mgr.hasInputCmdNum = s.mgr.hasInputCmdNum) := by
  have hOpen : s.closed = false := by
    by_contra hClosed
    rw [step_closed sign enter (eq_true_of_ne_false hClosed)] at hStep
    obtain rfl := Except.ok.inj hStep
    exact List.cons_ne_nil _ _ (List.self_eq_append_right.mp hExecuted)
  have hOutcome := step_executes sign s enter
  rw [hStep] at hOutcome
  have hCount := counts_reached hVisit hOpen
  obtain ⟨hClosed, hRecorded⟩ : t.closed = s.closed ∧ Recorded s t line := by
    cases hOutcome with
    | none hSame | quit hSame =>
        rw [hSame] at hExecuted
        exact absurd (List.self_eq_append_right.mp hExecuted) (List.cons_ne_nil _ _)
    | line line' hSame hClosed hRecorded =>
        rw [hSame] at hExecuted
        obtain rfl := List.singleton_inj.mp (List.append_cancel_left hExecuted)
        exact ⟨hClosed, hRecorded⟩
  rw [hExecuted, List.length_append, List.length_singleton]
  constructor
  · intro hShort hRoom up hUp hKey
    cases hRecorded with
    | stored entry hFree hNum hIndex hEntry hTerm hLine =>
        have hNext := toNat_succ_num hFree
        have hMoved : t.mgr.cmdIndex ≠ 0 := by
          rw [hIndex, ne_eq, ← UInt32.toNat_inj, hNext]
          exact Nat.succ_ne_zero _
        have hBack : (t.mgr.cmdIndex - 1).toNat = s.mgr.hasInputCmdNum.toNat := by
          rw [toNat_pred hMoved, hIndex, hNext]
          rfl
        obtain ⟨u, hRecall, hText, -⟩ := onUp_recalls hMoved (by rw [hBack]; exact hEntry) hTerm
          (by rw [hLine]; exact hShort)
        refine ⟨u, ?_, hText.trans hLine⟩
        rw [step_key (hClosed.trans hOpen) hUp hKey]
        exact hRecall
    | full hFull =>
        rw [hCount] at hFull
        omega
  · intro hOver
    cases hRecorded with
    | stored entry hFree =>
        rw [hCount] at hFree
        omega
    | full hFull hHistory hNum => exact ⟨hHistory, hNum⟩

theorem latest_command_recalled_typed :
    ∃ t u, shellThreadFunc .signed .init [.byte 0x61, .byte 13] = .ok t ∧
      t.step .signed (historyRead .up) = .ok u ∧ text u.cmdBuf.cells = ascii "a" := by
  obtain ⟨s, hType, hFirst⟩ :=
    (by decide +kernel : Sat (shellThreadFunc .signed .init [.byte 0x61])
      (fun s => s.executed = []) (fun _ => False)).returns
  obtain ⟨t, hRun, hLines⟩ :=
    (by decide +kernel : Sat (shellThreadFunc .signed .init ([.byte 0x61] ++ [.byte 13]))
      (fun t => t.executed = [ascii "a"]) (fun _ => False)).returns
  have hBoth := hRun
  rw [shellThreadFunc, run_append, ← shellThreadFunc, hType, ok_bind, run_cons] at hBoth
  obtain ⟨t', hStep, hEnd⟩ := bind_eq_ok.mp hBoth
  cases hEnd
  obtain ⟨hRecall, -⟩ := latest_command_recalled .signed ⟨_, List.prefix_rfl, hType⟩ hStep
    (by rw [hFirst, hLines]; rfl : t.executed = s.executed ++ [ascii "a"])
  obtain ⟨u, hUp, hText⟩ := hRecall (by decide) (by rw [hLines]; decide) (historyRead .up)
    (by decide +kernel) (keyRead_up .signed)
  exact ⟨t, u, hRun, hUp, hText⟩

/-- A line executed with a full history. -/
theorem cmdOver_full {s : Session} (hTerm : Terminated s.cmdBuf.cells)
    (hReturn : s.cmdBuf.peek 0 ≠ 13)
    (hRuns : text s.cmdBuf.cells ≠ ascii "quit" ∧ text s.cmdBuf.cells ≠ ascii "exit")
    (hFull : maxCmdHistoryNum ≤ s.mgr.hasInputCmdNum.toNat) :
    s.cmdOver = .ok { s with
      cmdBuf := .const _ 0
      sent := s.sent ++ (ascii "\r\n" ++ debugShell)
      executed := s.executed ++ [text s.cmdBuf.cells] } := by
  unfold Session.cmdOver
  rw [if_pos hReturn, updateHistoryCmd_full _ hFull, ok_bind, if_neg (not_quits hRuns),
    Buffer.str_eq hTerm, reading_ok, ok_bind, Session.prompt_eq]
  rfl

/-- Up starts from the position it had before. -/
theorem onEnter_full {s : Session} (hTerm : Terminated s.cmdBuf.cells)
    (hSome : text s.cmdBuf.cells ≠ []) (hReturn : s.cmdBuf.peek 0 ≠ 13)
    (hRuns : text s.cmdBuf.cells ≠ ascii "quit" ∧ text s.cmdBuf.cells ≠ ascii "exit")
    (hFull : maxCmdHistoryNum ≤ s.mgr.hasInputCmdNum.toNat) :
    ∃ t, s.onEnter = .ok t ∧ t.executed = s.executed ++ [text s.cmdBuf.cells] ∧
      t.mgr.historyCmd = s.mgr.historyCmd ∧ t.mgr.cmdIndex = s.mgr.cmdIndex ∧
        t.closed = s.closed := by
  rw [onEnter_spec hTerm hSome]
  refine ⟨_, cmdOver_full ?_ ?_ ?_ ?_, rfl, rfl, rfl, rfl⟩
  · exact hTerm
  · exact hReturn
  · exact hRuns
  · exact hFull

/-- The keys behind 500 lines `a`: the line `b` is executed, and Up brings back
the last `a`. -/
theorem latest_command_lost :
    ∃ s t, shellThreadFunc .signed .init ((List.replicate 500 lineKeys).flatten.map historyRead ++
        [.byte 0x62, .byte 13]) = .ok s ∧
      s.executed = List.replicate 500 (ascii "a") ++ [ascii "b"] ∧
      s.step .signed (historyRead .up) = .ok t ∧ text t.cmdBuf.cells = ascii "a" := by
  have hCount : 500 ≤ maxCmdHistoryNum := Nat.le_refl 500
  obtain ⟨s, c, hRun, hKeeps, hTyped, hLine, hEntered, hIndex⟩ := fill_history .signed hCount
  have hFull : c.entered.length = 500 := by rw [hEntered, List.length_replicate]
  have hShows : ShowsLine s .empty := hLine ▸ hKeeps.line
  obtain ⟨t, hType, hEdited⟩ := char_end .signed hShows hKeeps.isOpen typable_b rfl
    (by decide)
  have hMgr := hEdited.only.mgr
  have hOpen : t.closed = false := hEdited.only.closed.trans hKeeps.isOpen
  have hTerm := hEdited.shows.terminated
  have hText : text t.cmdBuf.cells = [0x62] := hEdited.shows.text
  have hFirst : t.cmdBuf.peek 0 = 0x62 := by
    rw [Buffer.peek, hEdited.shows.cells]
    rfl
  have hNum : maxCmdHistoryNum ≤ t.mgr.hasInputCmdNum.toNat := by
    rw [hMgr]
    exact Nat.le_of_eq (hFull.symm.trans hKeeps.num.symm)
  obtain ⟨u, hEnter, hExecuted, hHistory, hPosition, hClosed⟩ := onEnter_full hTerm
    (by rw [hText]; decide) (by rw [hFirst]; decide) (by rw [hText]; decide) hNum
  obtain ⟨entry, hEntry, hCells, -⟩ := hKeeps.entries 499 (by decide)
  have hLast : c.entry 499 = [0x61] := by
    rw [Console.entry, hEntered]
    decide +kernel
  have hCommand : IsCommand (c.entry 499) := hTyped.entry 499
  have hShown : text entry.cmd.cells = [0x61] := by rw [hCells, text_padded hCommand, hLast]
  have hAt : u.mgr.cmdIndex.toNat = 500 := by
    rw [hPosition, hMgr]
    exact hKeeps.index.trans hIndex
  have hMoved : u.mgr.cmdIndex ≠ 0 := fun hZero => by simp [hZero] at hAt
  have hBack : (u.mgr.cmdIndex - 1).toNat = 499 := by rw [toNat_pred hMoved, hAt]
  obtain ⟨v, hUp, hRecalled, -⟩ := onUp_recalls (s := u) hMoved
    (by rw [hBack, hHistory, hMgr]; exact hEntry)
    (by rw [hCells]; exact terminated_padded hCommand) (by rw [hShown]; decide)
  refine ⟨u, v, ?_, ?_, ?_, hRecalled.trans hShown⟩
  · rw [shellThreadFunc, run_append, ← shellThreadFunc, hRun, ok_bind, run_cons, hType, ok_bind,
      run_cons, step_enter hOpen hTerm, hEnter]
    rfl
  · rw [hExecuted, hText, hEdited.only.executed, hKeeps.executed, hEntered]
    rfl
  · rw [step_key (hClosed.trans hOpen) (by decide +kernel) (keyRead_up .signed)]
    exact hUp

end TelnetDebug
