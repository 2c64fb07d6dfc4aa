import TelnetDebug.Session.Editing

/-! What the history keys and Enter do: exact results where the history is
well formed, and in general what they can change and how they can fault. -/
namespace TelnetDebug

open CBuffer Guarded

section History

theorem entryText_eq {history : CmdQueue} {index : UInt32} {entry : InCmd}
    (hEntry : history.queueCmd.cells[index.toNat]? = some entry)
    (hTerm : Terminated entry.cmd.cells) :
    entryText history index = .ok (text entry.cmd.cells) := by
  unfold entryText
  rw [Buffer.get_eq hEntry, reading_ok, ok_bind, Buffer.str_eq hTerm, reading_ok]

theorem recallCmd_spec {s : Session} {index : UInt32} {entry : InCmd}
    (hEntry : s.mgr.historyCmd.queueCmd.cells[index.toNat]? = some entry)
    (hTerm : Terminated entry.cmd.cells) (hFits : (text entry.cmd.cells).length ≤ 240) :
    recallCmd s index = .ok ({ s with
      mgr := s.mgr.recalled index
        (.fill (text entry.cmd.cells) (Nat.le_of_lt (entry.cmd.text_length_lt hTerm))) }.send
      (clearLeftChar ++ (ascii "\x0d" ++ debugShell ++ text entry.cmd.cells))) := by
  have hMax := maxCmdLen_eq
  have hRedraw : (ascii "\x0d" ++ debugShell ++ text entry.cmd.cells).length < maxCmdLen := by
    have hPrompt : (ascii "\x0d" ++ debugShell).length = 15 := by decide
    rw [List.length_append, hPrompt]
    omega
  have hText : 0 ∉ ascii "\x0d" ++ debugShell ++ text entry.cmd.cells := by
    rw [List.mem_append]
    rintro (h | h)
    · exact absurd h (by decide)
    · exact zero_notMem_text _ h
  unfold recallCmd
  rw [entryText_eq hEntry hTerm, ok_bind, store_const hRedraw, writing_ok, ok_bind, ok_bind,
    store_const (entry.cmd.text_length_lt hTerm), writing_ok, ok_bind, text_fill hText]
  rfl

/-- What a recalled entry can change, whatever the history holds. -/
structure Recalled (s : Session) (index : UInt32) (t : Session) : Prop where
  mgr : ∃ gCmd : Line, Terminated gCmd.cells ∧ t.mgr = s.mgr.recalled index gCmd
  cmdBuf : t.cmdBuf = s.cmdBuf
  executed : t.executed = s.executed
  closed : t.closed = s.closed

/-- A fault of recalling the entry at `index`: the array of entries is left, an
entry is not terminated, or its text does not fit a buffer. -/
def recallFault (index : UInt32) (f : Fault) : Prop :=
  f = .read .queueCmd index.toNat ∧ maxCmdHistoryNum ≤ index.toNat ∨
    f.object = .historyCmd ∨ f.object = .redraw ∨ f.object = .gCmd

theorem entryText_frame (history : CmdQueue) (index : UInt32) :
    Sat (entryText history index) (fun _ => True) (recallFault index) := by
  unfold entryText
  refine sat_reading_bind (fun i h => ?_) fun entry _ => ?_
  · unfold Buffer.get at h
    split at h
    · cases h
    · next hIndex =>
      cases h
      rw [history.queueCmd.size] at hIndex
      exact .inl ⟨rfl, Nat.le_of_not_lt hIndex⟩
  · cases entry.cmd.str with
    | ok => trivial
    | error => exact .inr (.inl rfl)

theorem recallCmd_frame (s : Session) (index : UInt32) :
    Sat (recallCmd s index) (Recalled s index) (recallFault index) := by
  unfold recallCmd
  refine (entryText_frame _ _).bind fun shown _ => ?_
  refine sat_writing_bind (fun _ _ => .inr (.inr (.inl rfl))) fun buf _ => ?_
  refine (entryText_frame _ _).bind fun line _ => ?_
  refine sat_writing_bind (fun _ _ => .inr (.inr (.inr rfl))) fun gCmd hStore => ?_
  exact ⟨⟨gCmd, Buffer.terminated_of_store hStore, rfl⟩, rfl, rfl, rfl⟩

/-- With terminated entries only the redrawing can overflow. -/
theorem recallCmd_sound {s : Session}
    (hEntries : ∀ entry ∈ s.mgr.historyCmd.queueCmd.cells, Terminated entry.cmd.cells)
    (index : UInt32) :
    Sat (recallCmd s index) (Recalled s index)
      (fun f => f.object = .redraw ∨ f.object = .queueCmd) := by
  have hText : Sat (entryText s.mgr.historyCmd index) (fun line => line.length < maxCmdLen)
      (fun f => f.object = .redraw ∨ f.object = .queueCmd) := by
    unfold entryText
    refine sat_reading_bind (fun _ _ => .inr rfl) fun entry hEntry => ?_
    unfold Buffer.get at hEntry
    split at hEntry
    · cases hEntry
      have hTerm := hEntries _ (List.getElem_mem ‹_›)
      rw [Buffer.str_eq hTerm, reading_ok]
      exact Buffer.text_length_lt _ hTerm
    · cases hEntry
  unfold recallCmd
  refine hText.bind fun shown _ => ?_
  refine sat_writing_bind (fun _ _ => .inl rfl) fun buf _ => ?_
  refine hText.bind fun line hLine => ?_
  rw [store_const hLine, writing_ok, ok_bind]
  exact ⟨⟨_, terminated_fill hLine, rfl⟩, rfl, rfl, rfl⟩

theorem reload_sat {s : Session} {fault : Fault → Prop}
    (hG : ¬ Terminated s.mgr.gCmd.cells → fault (.read .gCmd maxCmdLen)) :
    Sat s.reload (fun t => SameMgr s t ∧ Terminated t.cmdBuf.cells) fault := by
  by_cases hTerm : Terminated s.mgr.gCmd.cells
  · rw [Session.reload_eq hTerm]
    exact ⟨⟨rfl, rfl, rfl⟩, terminated_fill (s.mgr.gCmd.text_length_lt hTerm)⟩
  · unfold Session.reload
    rw [Buffer.str, if_neg hTerm]
    exact hG hTerm

/-- The session after a history key that ends at the entry `index`. -/
structure Navigated (s : Session) (index : UInt32) (t : Session) : Prop where
  mgr : ∃ gCmd : Line, (Terminated s.mgr.gCmd.cells → Terminated gCmd.cells) ∧
    t.mgr = (s.setCursor 0).mgr.recalled index gCmd
  cmdBuf : Terminated t.cmdBuf.cells
  executed : t.executed = s.executed
  closed : t.closed = s.closed

theorem onUp_eq (s : Session) : s.onUp =
    if s.mgr.cmdIndex = 0 then (s.setCursor 0).reload
    else recallCmd (s.setCursor 0) (s.mgr.cmdIndex - 1) >>= Session.reload := by
  have h : keyboardMoveUp s = if s.mgr.cmdIndex = 0 then .ok (s.setCursor 0)
      else recallCmd (s.setCursor 0) (s.mgr.cmdIndex - 1) := rfl
  unfold Session.onUp
  rw [h]
  split <;> rfl

theorem onDown_eq (s : Session) : s.onDown =
    if s.mgr.cmdIndex = s.mgr.hasInputCmdNum then (s.setCursor 0).reload
    else recallCmd (s.setCursor 0) (s.mgr.cmdIndex + 1) >>= Session.reload := by
  have h : keyboardMoveDown s = if s.mgr.cmdIndex = s.mgr.hasInputCmdNum then .ok (s.setCursor 0)
      else recallCmd (s.setCursor 0) (s.mgr.cmdIndex + 1) := rfl
  unfold Session.onDown
  rw [h]
  split <;> rfl

section Navigation
variable {s : Session} {fault : Fault → Prop}

theorem stay_sat (hG : ¬ Terminated s.mgr.gCmd.cells → fault (.read .gCmd maxCmdLen))
    {index : UInt32} (hIndex : s.mgr.cmdIndex = index) :
    Sat (s.setCursor 0).reload (Navigated s index) fault := by
  refine (reload_sat (s := s.setCursor 0) hG).mono (fun t h => ?_) fun _ h => h
  refine ⟨⟨s.mgr.gCmd, id, ?_⟩, h.2, h.1.executed, h.1.closed⟩
  rw [h.1.mgr, ← hIndex]
  rfl

theorem move_sat {index : UInt32}
    (hMove : Sat (recallCmd (s.setCursor 0) index) (Recalled (s.setCursor 0) index) fault) :
    Sat (recallCmd (s.setCursor 0) index >>= Session.reload) (Navigated s index) fault := by
  refine hMove.bind fun t hMove => ?_
  obtain ⟨gCmd, hTerm, hMgr⟩ := hMove.mgr
  refine (reload_sat fun h => absurd (by rw [hMgr]; exact hTerm) h).mono (fun u h => ?_)
    fun _ h => h
  exact ⟨⟨gCmd, fun _ => hTerm, h.1.mgr.trans hMgr⟩, h.2, h.1.executed.trans hMove.executed,
    h.1.closed.trans hMove.closed⟩

/-- The entry at which Up ends. -/
def upIndex (m : TelnetMgr) : UInt32 := if m.cmdIndex = 0 then 0 else m.cmdIndex - 1

/-- The entry at which Down ends. -/
def downIndex (m : TelnetMgr) : UInt32 :=
  if m.cmdIndex = m.hasInputCmdNum then m.cmdIndex else m.cmdIndex + 1

theorem onUp_sat (hG : ¬ Terminated s.mgr.gCmd.cells → fault (.read .gCmd maxCmdLen))
    (hMove : s.mgr.cmdIndex ≠ 0 → Sat (recallCmd (s.setCursor 0) (s.mgr.cmdIndex - 1))
      (Recalled (s.setCursor 0) (s.mgr.cmdIndex - 1)) fault) :
    Sat s.onUp (Navigated s (upIndex s.mgr)) fault := by
  rw [onUp_eq, upIndex]
  by_cases h : s.mgr.cmdIndex = 0
  · rw [if_pos h, if_pos h]
    exact stay_sat hG h
  · rw [if_neg h, if_neg h]
    exact move_sat (hMove h)

theorem onDown_sat (hG : ¬ Terminated s.mgr.gCmd.cells → fault (.read .gCmd maxCmdLen))
    (hMove : s.mgr.cmdIndex ≠ s.mgr.hasInputCmdNum →
      Sat (recallCmd (s.setCursor 0) (s.mgr.cmdIndex + 1))
        (Recalled (s.setCursor 0) (s.mgr.cmdIndex + 1)) fault) :
    Sat s.onDown (Navigated s (downIndex s.mgr)) fault := by
  rw [onDown_eq, downIndex]
  by_cases h : s.mgr.cmdIndex = s.mgr.hasInputCmdNum
  · rw [if_pos h, if_pos h]
    exact stay_sat hG rfl
  · rw [if_neg h, if_neg h]
    exact move_sat (hMove h)

end Navigation

end History

section Entering

/-- The history before and after one line was entered: the line is stored in
the first free entry, and a full history is kept. -/
inductive HistoryUpdated (m m' : TelnetMgr) : Prop where
  | kept (hHistory : m'.historyCmd = m.historyCmd) (hNum : m'.hasInputCmdNum = m.hasInputCmdNum)
      (hIndex : m'.cmdIndex = m.cmdIndex)
  | stored (entry : InCmd) (queue : Buffer InCmd maxCmdHistoryNum)
      (hFree : m.hasInputCmdNum.toNat < maxCmdHistoryNum) (hTerm : Terminated entry.cmd.cells)
      (hQueue : queue.cells = m.historyCmd.queueCmd.cells.set m.hasInputCmdNum.toNat entry)
      (hHistory : m'.historyCmd = ⟨m.hasInputCmdNum + 1, queue⟩)
      (hNum : m'.hasInputCmdNum = m.hasInputCmdNum + 1) (hIndex : m'.cmdIndex = m.hasInputCmdNum + 1)

theorem HistoryUpdated.of_eq {m₀ m m' : TelnetMgr} (h : HistoryUpdated m₀ m')
    (hHistory : m₀.historyCmd = m.historyCmd) (hNum : m₀.hasInputCmdNum = m.hasInputCmdNum)
    (hIndex : m₀.cmdIndex = m.cmdIndex) : HistoryUpdated m m' := by
  cases h with
  | kept h₁ h₂ h₃ => exact .kept (h₁.trans hHistory) (h₂.trans hNum) (h₃.trans hIndex)
  | stored entry queue hFree hTerm hQueue h₁ h₂ h₃ =>
      rw [hNum] at hFree h₁ h₂ h₃
      rw [hNum, hHistory] at hQueue
      exact .stored entry queue hFree hTerm hQueue h₁ h₂ h₃

theorem updateHistoryCmd_full {s : Session} (cmd : Line)
    (h : maxCmdHistoryNum ≤ s.mgr.hasInputCmdNum.toNat) : updateHistoryCmd s cmd = .ok s := by
  unfold updateHistoryCmd
  rw [if_pos (by rw [ge_iff_le, UInt32.le_iff_toNat_le]; exact h)]
  rfl

theorem toNat_succ_num {num : UInt32} (h : num.toNat < maxCmdHistoryNum) :
    (num + 1).toNat = num.toNat + 1 := by
  rw [UInt32.toNat_add, UInt32.toNat_one]
  have hMax : maxCmdHistoryNum = 500 := rfl
  omega

theorem updateHistoryCmd_free {s : Session} {cmd : Line} {entry : InCmd}
    (hTerm : Terminated cmd.cells)
    (hEntry : s.mgr.historyCmd.queueCmd.cells[s.mgr.hasInputCmdNum.toNat]? = some entry) :
    ∃ (stored : Line) (queue : Buffer InCmd maxCmdHistoryNum),
      updateHistoryCmd s cmd = .ok { s with mgr := { s.mgr with
        historyCmd := ⟨s.mgr.hasInputCmdNum + 1, queue⟩
        hasInputCmdNum := s.mgr.hasInputCmdNum + 1
        cmdIndex := s.mgr.hasInputCmdNum + 1 } } ∧
      stored.cells = text cmd.cells ++ 0 :: entry.cmd.cells.drop ((text cmd.cells).length + 1) ∧
      queue.cells = s.mgr.historyCmd.queueCmd.cells.set s.mgr.hasInputCmdNum.toNat
        ⟨stored, UInt32.ofNat (text cmd.cells).length⟩ := by
  have hIndex := (List.getElem?_eq_some_iff.mp hEntry).1
  rw [s.mgr.historyCmd.queueCmd.size] at hIndex
  obtain ⟨stored, hStore, hStored⟩ := entry.cmd.store_spec (cmd.text_length_lt hTerm)
  let queue : Buffer InCmd maxCmdHistoryNum :=
    ⟨s.mgr.historyCmd.queueCmd.cells.set s.mgr.hasInputCmdNum.toNat
      ⟨stored, UInt32.ofNat (text cmd.cells).length⟩,
      by rw [List.length_set, s.mgr.historyCmd.queueCmd.size]⟩
  have hSet : s.mgr.historyCmd.queueCmd.set s.mgr.hasInputCmdNum.toNat
      ⟨stored, UInt32.ofNat (text cmd.cells).length⟩ = .ok queue := if_pos hIndex
  have hGuard : ¬ s.mgr.hasInputCmdNum ≥ UInt32.ofNat maxCmdHistoryNum := by
    rw [ge_iff_le, UInt32.le_iff_toNat_le]
    exact Nat.not_le_of_lt hIndex
  have hClamp : ¬ s.mgr.hasInputCmdNum + 1 > UInt32.ofNat maxCmdHistoryNum := by
    rw [gt_iff_lt, UInt32.lt_iff_toNat_lt, toNat_succ_num hIndex]
    exact Nat.not_lt_of_le hIndex
  refine ⟨stored, queue, ?_, hStored, rfl⟩
  unfold updateHistoryCmd
  rw [if_neg hGuard]
  dsimp only
  rw [Buffer.get_eq hEntry, writing_ok, ok_bind, Buffer.str_eq hTerm, reading_ok, ok_bind, hStore,
    writing_ok, ok_bind, hSet, writing_ok, ok_bind, if_neg hClamp]
  rfl

theorem updateHistoryCmd_cases (s : Session) {cmd : Line} (hTerm : Terminated cmd.cells) :
    ∃ m, updateHistoryCmd s cmd = .ok { s with mgr := m } ∧ HistoryUpdated s.mgr m ∧
      m.moveLeftNum = s.mgr.moveLeftNum ∧ m.gCmd = s.mgr.gCmd := by
  by_cases hFree : s.mgr.hasInputCmdNum.toNat < maxCmdHistoryNum
  · have hIndex : s.mgr.hasInputCmdNum.toNat < s.mgr.historyCmd.queueCmd.cells.length := by
      rwa [s.mgr.historyCmd.queueCmd.size]
    obtain ⟨stored, queue, hUpdate, hStored, hQueue⟩ :=
      updateHistoryCmd_free hTerm (List.getElem?_eq_getElem hIndex)
    refine ⟨_, hUpdate, .stored _ queue hFree ?_ hQueue rfl rfl rfl, rfl, rfl⟩
    rw [hStored]
    exact terminated_append_zero _ _
  · exact ⟨s.mgr, updateHistoryCmd_full cmd (Nat.le_of_not_lt hFree), .kept rfl rfl rfl, rfl, rfl⟩

/-- The session after Enter. -/
structure Entered (s t : Session) : Prop where
  cursor : t.mgr.moveLeftNum = 0
  gCmd : t.mgr.gCmd = s.mgr.gCmd ∨ Terminated t.mgr.gCmd.cells
  history : HistoryUpdated s.mgr t.mgr
  cmdBuf : Terminated t.cmdBuf.cells

theorem cmdOver_cases {s : Session} (hTerm : Terminated s.cmdBuf.cells) :
    ∃ t, s.cmdOver = .ok t ∧ t.mgr.moveLeftNum = s.mgr.moveLeftNum ∧ t.mgr.gCmd = s.mgr.gCmd ∧
      HistoryUpdated s.mgr t.mgr ∧ Terminated t.cmdBuf.cells := by
  unfold Session.cmdOver
  split
  · obtain ⟨m, hUpdate, hHistory, hCursor, hG⟩ := updateHistoryCmd_cases s hTerm
    rw [hUpdate, ok_bind]
    dsimp only
    split
    · exact ⟨_, rfl, hCursor, hG, hHistory, hTerm⟩
    · rw [Buffer.str_eq hTerm, reading_ok, ok_bind, Session.prompt_eq]
      exact ⟨_, rfl, hCursor, hG, hHistory, terminated_fill (s := []) (by decide)⟩
  · exact ⟨s, rfl, rfl, rfl, .kept rfl rfl rfl, hTerm⟩

/-- A line with another text does not end the session. -/
theorem not_quits {line : Line}
    (hRuns : text line.cells ≠ ascii "quit" ∧ text line.cells ≠ ascii "exit") :
    ¬ (line.streq (ascii "quit") ∨ line.streq (ascii "exit")) := by
  rw [Buffer.streq_iff (by decide), Buffer.streq_iff (by decide)]
  rintro (⟨-, h⟩ | ⟨-, h⟩)
  · exact hRuns.1 h
  · exact hRuns.2 h

/-- A line that is executed, while the history has room: exact. -/
theorem cmdOver_spec {s : Session} {entry : InCmd} (hTerm : Terminated s.cmdBuf.cells)
    (hReturn : s.cmdBuf.peek 0 ≠ 13)
    (hRuns : text s.cmdBuf.cells ≠ ascii "quit" ∧ text s.cmdBuf.cells ≠ ascii "exit")
    (hEntry : s.mgr.historyCmd.queueCmd.cells[s.mgr.hasInputCmdNum.toNat]? = some entry) :
    ∃ (stored : Line) (queue : Buffer InCmd maxCmdHistoryNum),
      s.cmdOver = .ok { s with
        mgr := { s.mgr with
          historyCmd := ⟨s.mgr.hasInputCmdNum + 1, queue⟩
          hasInputCmdNum := s.mgr.hasInputCmdNum + 1
          cmdIndex := s.mgr.hasInputCmdNum + 1 }
        cmdBuf := .const _ 0
        sent := s.sent ++ (ascii "\r\n" ++ debugShell)
        executed := s.executed ++ [text s.cmdBuf.cells] } ∧
      stored.cells =
        text s.cmdBuf.cells ++ 0 :: entry.cmd.cells.drop ((text s.cmdBuf.cells).length + 1) ∧
      queue.cells = s.mgr.historyCmd.queueCmd.cells.set s.mgr.hasInputCmdNum.toNat
        ⟨stored, UInt32.ofNat (text s.cmdBuf.cells).length⟩ := by
  obtain ⟨stored, queue, hUpdate, hStored, hQueue⟩ := updateHistoryCmd_free hTerm hEntry
  refine ⟨stored, queue, ?_, hStored, hQueue⟩
  unfold Session.cmdOver
  rw [if_pos hReturn, hUpdate, ok_bind]
  dsimp only
  rw [if_neg (not_quits hRuns), Buffer.str_eq hTerm, reading_ok, ok_bind, Session.prompt_eq]
  rfl

theorem onEnter_spec {s : Session} (hTerm : Terminated s.cmdBuf.cells)
    (hSome : text s.cmdBuf.cells ≠ []) :
    s.onEnter = (((s.setCursor 0).setGCmd (.fill (text s.cmdBuf.cells)
      (Nat.le_of_lt (s.cmdBuf.text_length_lt hTerm)))).send (ascii "\r\n")).cmdOver := by
  unfold Session.onEnter
  dsimp only
  rw [Session.setCursor_cmdBuf, Buffer.str_eq hTerm, reading_ok, ok_bind,
    if_pos (List.length_pos_iff.mpr hSome), store_const (s.cmdBuf.text_length_lt hTerm),
    writing_ok, ok_bind]

theorem onEnter_empty {s : Session} (hTerm : Terminated s.cmdBuf.cells)
    (hNone : text s.cmdBuf.cells = []) :
    s.onEnter = .ok ((s.setCursor 0).send (ascii "\r\n" ++ debugShell)) := by
  unfold Session.onEnter
  dsimp only
  rw [Session.setCursor_cmdBuf, Buffer.str_eq hTerm, reading_ok, ok_bind, hNone]
  rfl

theorem onEnter_cases {s : Session} (hTerm : Terminated s.cmdBuf.cells) :
    ∃ t, s.onEnter = .ok t ∧ Entered s t := by
  by_cases hSome : text s.cmdBuf.cells = []
  · rw [onEnter_empty hTerm hSome]
    exact ⟨_, rfl, rfl, .inl rfl, .kept rfl rfl rfl, hTerm⟩
  · rw [onEnter_spec hTerm hSome]
    obtain ⟨t, hOver, hCursor, hG, hHistory, hLine⟩ :=
      cmdOver_cases (s := ((s.setCursor 0).setGCmd (.fill (text s.cmdBuf.cells)
        (Nat.le_of_lt (s.cmdBuf.text_length_lt hTerm)))).send (ascii "\r\n")) hTerm
    refine ⟨t, hOver, hCursor, .inr ?_, hHistory.of_eq rfl rfl rfl, hLine⟩
    rw [hG]
    exact terminated_fill (s.cmdBuf.text_length_lt hTerm)

theorem onEnter_error {s : Session} (hTerm : ¬ Terminated s.cmdBuf.cells) :
    s.onEnter = .error (.read .cmdBuf maxCmdLen) := by
  unfold Session.onEnter
  dsimp only
  rw [Session.setCursor_cmdBuf, Buffer.str, if_neg hTerm, reading_error, error_bind]

end Entering

end TelnetDebug
