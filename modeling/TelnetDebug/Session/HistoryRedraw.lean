import TelnetDebug.Session.HistoryStore
import TelnetDebug.Session.LineBound

/-! The redrawing of a recalled line. The line is put behind a carriage return
and the prompt in a buffer no longer than the one it was typed into. -/
namespace TelnetDebug

open CBuffer Guarded

/-- The entry that a history key goes to. -/
def recalledIndex (s : Session) : Key → Option UInt32
  | .up => if s.mgr.cmdIndex = 0 then none else some (s.mgr.cmdIndex - 1)
  | .down =>
      if s.mgr.cmdIndex = s.mgr.hasInputCmdNum then none else some (s.mgr.cmdIndex + 1)
  | _ => none

/-- The entry is one of the array, and leaves room for the carriage return, the
prompt and the terminator. -/
def RedrawFits (s : Session) (key : Key) : Prop :=
  ∀ index ∈ recalledIndex s key, ∃ entry,
    s.mgr.historyCmd.queueCmd.cells[index.toNat]? = some entry ∧
      (text entry.cmd.cells).length ≤ 240

/-- The line is redrawn as a whole, and it is the recalled command and the line
typed. -/
structure Redrawn (s t : Session) (shown : List UInt8) : Prop where
  sent : t.sent = s.sent ++ (clearLeftChar ++ (ascii "\x0d" ++ debugShell ++ shown))
  gCmd : text t.mgr.gCmd.cells = shown
  cmdBuf : text t.cmdBuf.cells = shown

section Entries
variable {s t : Session}

/-- A round stores terminated lines only. -/
theorem HistoryStep.entries {key : Key} (h : HistoryStep s key t)
    (hEntries : ∀ entry ∈ s.mgr.historyCmd.queueCmd.cells, Terminated entry.cmd.cells) :
    ∀ entry ∈ t.mgr.historyCmd.queueCmd.cells, Terminated entry.cmd.cells := by
  cases h with
  | kept hMgr =>
      rw [hMgr]
      exact hEntries
  | up hMove | down hMove =>
      obtain ⟨gCmd, -, hMgr⟩ := hMove.mgr
      rw [hMgr]
      exact hEntries
  | entered hEnter =>
      cases hEnter.history with
      | kept hHistory =>
          rw [hHistory]
          exact hEntries
      | stored entry queue _ hTerm hQueue hHistory =>
          intro old hOld
          rw [hHistory] at hOld
          change old ∈ queue.cells at hOld
          rw [hQueue] at hOld
          rcases List.mem_or_eq_of_mem_set hOld with hOld | rfl
          · exact hEntries old hOld
          · exact hTerm

theorem entries_terminated {sign : CharSign} {reads : List ReadResult}
    (hVisit : Visits (Session.step sign) .init reads s) :
    ∀ entry ∈ s.mgr.historyCmd.queueCmd.cells, Terminated entry.cmd.cells :=
  have hAll : Meets (Session.step sign) (fun _ _ => True) .init reads :=
    .of_forall fun _ _ => trivial
  have hInit : ∀ entry ∈ Session.init.mgr.historyCmd.queueCmd.cells,
      Terminated entry.cmd.cells := by
    intro entry hEntry
    rw [(List.mem_replicate.mp hEntry).2]
    exact terminated_fill (s := []) (by decide)
  hVisit.invariant
    (fun s r hEntries _ => (step_history sign s r).mono (fun _ h => h.entries hEntries)
      fun _ _ => trivial)
    hInit hAll

end Entries

section Recall
variable {s : Session} {index : UInt32}

theorem recallCmd_outside (h : s.mgr.historyCmd.queueCmd.cells[index.toNat]? = none) :
    recallCmd s index = .error (.read .queueCmd index.toNat) := by
  have hIndex := List.getElem?_eq_none_iff.mp h
  rw [s.mgr.historyCmd.queueCmd.size] at hIndex
  unfold recallCmd entryText
  rw [Buffer.get_error hIndex]
  rfl

/-- The local buffer is too short for the carriage return, the prompt and the
longest lines. -/
theorem recallCmd_long {entry : InCmd}
    (hEntry : s.mgr.historyCmd.queueCmd.cells[index.toNat]? = some entry)
    (hTerm : Terminated entry.cmd.cells) (hLong : 240 < (text entry.cmd.cells).length) :
    recallCmd s index = .error (.write .redraw maxCmdLen) := by
  have hRedraw : ¬ (ascii "\x0d" ++ debugShell ++ text entry.cmd.cells).length < maxCmdLen := by
    have hPrompt : (ascii "\x0d" ++ debugShell).length = 15 := by decide
    have hMax := maxCmdLen_eq
    rw [List.length_append, hPrompt]
    omega
  unfold recallCmd
  rw [entryText_eq hEntry hTerm, ok_bind, Buffer.store, dif_neg hRedraw]
  rfl

/-- A key that recalls an entry redraws it and loads the line from it. -/
theorem recall_redrawn {entry : InCmd}
    (hEntry : s.mgr.historyCmd.queueCmd.cells[index.toNat]? = some entry)
    (hTerm : Terminated entry.cmd.cells) (hFits : (text entry.cmd.cells).length ≤ 240) :
    ∃ t, (recallCmd (s.setCursor 0) index >>= Session.reload) = .ok t ∧
      Redrawn s t (text entry.cmd.cells) := by
  have hShort := entry.cmd.text_length_lt hTerm
  have hNul := zero_notMem_text entry.cmd.cells
  have hText := text_fill hNul (Nat.le_of_lt hShort)
  rw [recallCmd_spec (s := s.setCursor 0) hEntry hTerm hFits, ok_bind,
    Session.reload_eq (terminated_fill hShort)]
  refine ⟨_, rfl, rfl, hText, ?_⟩
  rw [text_fill (zero_notMem_text _)]
  exact hText

/-- A history key at no end of the history recalls an entry. -/
theorem step_recalls {sign : CharSign} {r : ReadResult} (hOpen : s.closed = false)
    (hRead : Terminated r.cmdLine.cells) (hIndex : recalledIndex s (keyRead sign r) = some index) :
    s.step sign r = recallCmd (s.setCursor 0) index >>= Session.reload := by
  rw [step_key hOpen hRead rfl]
  cases hKey : keyRead sign r with
  | up =>
      rw [hKey, recalledIndex] at hIndex
      change s.onUp = _
      rw [onUp_eq]
      split at hIndex
      · cases hIndex
      · cases hIndex
        rw [if_neg ‹_›]
  | down =>
      rw [hKey, recalledIndex] at hIndex
      change s.onDown = _
      rw [onDown_eq]
      split at hIndex
      · cases hIndex
      · cases hIndex
        rw [if_neg ‹_›]
  | clearIac | ctrlC | ctrlL | right | left | backspace | help | tab | other =>
      rw [hKey] at hIndex
      cases hIndex

theorem atEnd_of_recalledIndex {sign : CharSign} {r : ReadResult}
    (hKey : keyRead sign r = .up ∨ keyRead sign r = .down)
    (hNone : recalledIndex s (keyRead sign r) = none) : AtEnd sign s r := by
  rcases hKey with hKey | hKey
  · rw [hKey, recalledIndex] at hNone
    refine .inl ⟨hKey, ?_⟩
    by_contra hIndex
    rw [if_neg hIndex] at hNone
    cases hNone
  · rw [hKey, recalledIndex] at hNone
    refine .inr ⟨hKey, ?_⟩
    by_contra hIndex
    rw [if_neg hIndex] at hNone
    cases hNone

end Recall

/-- In every reachable state: a history key redraws and loads the entry it goes
to, within the three buffers, exactly when the entry is one of the array and has
at most 240 characters. -/
theorem redraw_fits_iff (sign : CharSign) {reads : List ReadResult} {s : Session}
    (hVisit : Visits (Session.step sign) .init reads s) (hOpen : s.closed = false)
    {r : ReadResult} (hRead : Terminated r.cmdLine.cells)
    (hKey : keyRead sign r = .up ∨ keyRead sign r = .down) :
    (∃ t, s.step sign r = .ok t ∧ ∀ index ∈ recalledIndex s (keyRead sign r), ∀ entry,
      s.mgr.historyCmd.queueCmd.cells[index.toNat]? = some entry →
        Redrawn s t (text entry.cmd.cells)) ↔ RedrawFits s (keyRead sign r) := by
  unfold RedrawFits
  cases hIndex : recalledIndex s (keyRead sign r) with
  | none =>
      have hStep := step_atEnd hOpen hRead (atEnd_of_recalledIndex hKey hIndex)
      have hTerm := gCmd_terminated hVisit
      rw [Session.reload_eq (s := s.setCursor 0) hTerm] at hStep
      refine iff_of_true ⟨_, hStep, fun index h => ?_⟩ fun index h => ?_
      · exact absurd h (Option.not_mem_none index)
      · exact absurd h (Option.not_mem_none index)
  | some index =>
      simp only [Option.mem_some_iff, forall_eq']
      rw [step_recalls hOpen hRead hIndex]
      cases hEntry : s.mgr.historyCmd.queueCmd.cells[index.toNat]? with
      | none =>
          rw [recallCmd_outside (s := s.setCursor 0) hEntry]
          constructor
          · rintro ⟨t, hStep, -⟩
            cases hStep
          · rintro ⟨entry, hSome, -⟩
            cases hSome
      | some entry =>
          have hTerm := entries_terminated hVisit entry (List.mem_of_getElem? hEntry)
          simp only [Option.some.injEq, exists_eq_left', forall_eq']
          by_cases hFits : (text entry.cmd.cells).length ≤ 240
          · exact iff_of_true (recall_redrawn hEntry hTerm hFits) hFits
          · refine iff_of_false ?_ hFits
            rintro ⟨t, hStep, -⟩
            rw [recallCmd_long (s := s.setCursor 0) hEntry hTerm (Nat.lt_of_not_le hFits)] at hStep
            cases hStep

section Typing
variable {sign : CharSign} {bytes : List UInt8}

/-- The first line of a session is stored in the first entry. -/
theorem first_line_stored (hText : IsText sign bytes) (fits : bytes.length ≤ maxCmdLen)
    (hRuns : bytes ≠ ascii "quit" ∧ bytes ≠ ascii "exit") :
    ∃ s entry, shellThreadFunc sign .init [.data bytes fits, .byte 13] = .ok s ∧
      s.closed = false ∧ s.mgr.cmdIndex = 1 ∧
      s.mgr.historyCmd.queueCmd.cells[(0 : UInt32).toNat]? = some entry ∧
      Terminated entry.cmd.cells ∧ text entry.cmd.cells = bytes := by
  have hMax := maxCmdLen_eq
  have hShort := hText.short
  have hEmpty : Session.init.cmdBuf.cells = [] ++ 0 :: List.replicate 255 0 := rfl
  obtain ⟨buf, hAppend, hCells⟩ := appendAll_spec List.not_mem_nil hText.noNul hEmpty
    (by rw [List.length_replicate]; omega)
  rw [List.nil_append] at hCells
  have hTerm : Terminated buf.cells := by
    rw [hCells]
    exact terminated_append_zero _ _
  have hLine : text buf.cells = bytes := by rw [hCells, text_append_zero hText.noNul]
  obtain ⟨c, rest, hFirst, hPlain⟩ := hText.first
  have hPeek : buf.peek 0 ≠ 13 := by
    rw [Buffer.peek, hCells, hFirst]
    rintro rfl
    exact hPlain.1 (by decide)
  have hFree : Session.init.mgr.historyCmd.queueCmd.cells[(0 : UInt32).toNat]? =
      some ⟨.const _ 0, 0⟩ := rfl
  obtain ⟨stored, queue, hOver, hStored, hQueue⟩ := cmdOver_spec
    (s := ((({ Session.init.send bytes with cmdBuf := buf }).setCursor 0).setGCmd
      (.fill (text buf.cells) (Nat.le_of_lt (buf.text_length_lt hTerm)))).send (ascii "\r\n"))
    hTerm hPeek (by rwa [← hLine] at hRuns) hFree
  obtain ⟨after, hStored⟩ : ∃ after, stored.cells = bytes ++ 0 :: after := by
    rw [← hLine]
    exact ⟨_, hStored⟩
  have hEnter : Session.onEnter { Session.init.send bytes with cmdBuf := buf } = _ :=
    (onEnter_spec hTerm (by rw [hLine, hFirst]; exact List.cons_ne_nil c rest)).trans hOver
  have hEntry : queue.cells[0]? = some ⟨stored, UInt32.ofNat (text buf.cells).length⟩ := by
    rw [hQueue]
    rfl
  have hRun : shellThreadFunc sign .init [.data bytes fits, .byte 13] =
      Session.onEnter { Session.init.send bytes with cmdBuf := buf } := by
    unfold shellThreadFunc
    rw [run_cons, hText.step fits rfl rfl, hAppend, ok_bind, ok_bind, run_cons,
      step_enter rfl hTerm, hEnter]
    rfl
  refine ⟨_, _, hRun.trans hEnter, rfl, rfl, hEntry, ?_, ?_⟩
  · rw [hStored]
    exact terminated_append_zero _ _
  · rw [hStored, text_append_zero hText.noNul]

/-- A line of more than 240 characters overflows the local buffer when it is
recalled. -/
theorem long_line_overflows (hText : IsText sign bytes) (fits : bytes.length ≤ maxCmdLen)
    (hLong : 240 < bytes.length) :
    shellThreadFunc sign .init [.data bytes fits, .byte 13, historyRead .up] =
      .error (.write .redraw maxCmdLen) := by
  have hRuns : bytes ≠ ascii "quit" ∧ bytes ≠ ascii "exit" := by
    constructor <;> rintro rfl <;> exact absurd hLong (by decide)
  obtain ⟨s, entry, hRun, hOpen, hIndex, hEntry, hTerm, hLine⟩ :=
    first_line_stored hText fits hRuns
  have hRead : Terminated (historyRead .up).cmdLine.cells := by decide +kernel
  have hRecalled : recalledIndex s (keyRead sign (historyRead .up)) = some 0 := by
    rw [keyRead_up, recalledIndex, hIndex]
    rfl
  have hSplit := run_append (Session.step sign) .init [.data bytes fits, .byte 13]
    [historyRead .up]
  change shellThreadFunc sign .init _ = _ at hSplit
  change shellThreadFunc sign .init [_, _] = _ at hRun
  unfold shellThreadFunc at hSplit hRun ⊢
  refine hSplit.trans ?_
  rw [hRun, ok_bind, run_cons, step_recalls hOpen hRead hRecalled,
    recallCmd_long (s := s.setCursor 0) hEntry hTerm (by rw [hLine]; exact hLong)]
  rfl

end Typing

/-- A line of one character is recalled. -/
theorem redraw_fits_typed :
    ∃ s t, shellThreadFunc .signed .init [.byte 0x61, .byte 13] = .ok s ∧
      s.step .signed (historyRead .up) = .ok t ∧ Redrawn s t (ascii "a") := by
  obtain ⟨s, hRun, hOpen, hIndex, hLine⟩ :=
    (by decide +kernel : Sat (shellThreadFunc .signed .init [.byte 0x61, .byte 13])
      (fun s => s.closed = false ∧ s.mgr.cmdIndex = 1 ∧
        (s.mgr.historyCmd.queueCmd.cells[0]?.map fun entry => text entry.cmd.cells) =
          some (ascii "a")) (fun _ => False)).returns
  obtain ⟨entry, hEntry, hText⟩ := Option.map_eq_some_iff.mp hLine
  have hRecalled : recalledIndex s .up = some 0 := by
    rw [recalledIndex, hIndex]
    rfl
  have hFits := redraw_fits_iff .signed ⟨_, List.prefix_rfl, hRun⟩ hOpen
    (r := historyRead .up) (by decide +kernel) (.inl (keyRead_up .signed))
  rw [keyRead_up] at hFits
  have hShort : RedrawFits s .up := by
    intro index hSome
    obtain rfl : index = 0 := Option.some.inj (hSome.symm.trans hRecalled)
    refine ⟨entry, hEntry, ?_⟩
    rw [hText]
    decide
  obtain ⟨t, hStep, hRedrawn⟩ := hFits.mpr hShort
  refine ⟨s, t, hRun, hStep, ?_⟩
  rw [← hText]
  exact hRedrawn 0 hRecalled entry hEntry

/-- A line of 241 characters is typed, entered and recalled. -/
theorem redraw_overflows :
    shellThreadFunc .signed .init
        [.data (List.replicate 241 0x61) (by rw [List.length_replicate]; decide),
          .byte 13, historyRead .up] = .error (.write .redraw 256) :=
  long_line_overflows (.replicate (by decide) (by decide) (by decide) (by decide)) _
    (by rw [List.length_replicate]; decide)

end TelnetDebug
