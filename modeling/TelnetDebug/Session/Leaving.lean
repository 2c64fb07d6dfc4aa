import TelnetDebug.Session.HistoryContents

/-! The way out of a session. Whatever the line, the cursor and the history are,
the session can be ended without executing what stands in the line. -/
namespace TelnetDebug

open CBuffer Guarded

theorem quit_fits : (ascii "quit").length ≤ maxCmdLen := by decide

/-- Ctrl-C, Enter, `quit` and Enter. Ctrl-C clears the line and leaves the
cursor where it was; the first Enter is for the cursor. -/
def leaving : List ReadResult :=
  [.byte 3, .byte 13, .data (ascii "quit") quit_fits, .byte 13]

/-- The last of the reads ends the session, and none has a line executed. -/
inductive Leaves (sign : CharSign) : Session → List ReadResult → Prop where
  | last {s t : Session} {r : ReadResult} (hStep : s.step sign r = .ok t)
      (hExecuted : t.executed = s.executed) (hClosed : t.closed = true) : Leaves sign s [r]
  | next {s t : Session} {r : ReadResult} {reads : List ReadResult}
      (hStep : s.step sign r = .ok t) (hExecuted : t.executed = s.executed)
      (hOpen : t.closed = false) (hRest : Leaves sign t reads) : Leaves sign s (r :: reads)

section Rounds
variable {s : Session}

theorem step_ctrlC (sign : CharSign) (hOpen : s.closed = false) :
    ∃ t, s.step sign (.byte 3) = .ok t ∧ t.executed = s.executed ∧ t.closed = false ∧
      t.cmdBuf = .const _ 0 := by
  have hKey : keyRead sign (.byte 3) = .ctrlC := by
    cases sign
    · decide +kernel
    · decide +kernel
  refine ⟨{ (s.send (ascii "^C")).send (ascii "\r\n" ++ debugShell) with cmdBuf := .const _ 0 }, ?_,
    rfl, hOpen, rfl⟩
  rw [step_key hOpen (ReadResult.byte_terminated 3) hKey]
  exact (s.send (ascii "^C")).prompt_eq

theorem terminated_blank : Terminated (Buffer.const maxCmdLen (0 : UInt8)).cells :=
  terminated_append_zero [] _

theorem text_blank : text (Buffer.const maxCmdLen (0 : UInt8)).cells = [] :=
  text_append_zero (s := []) List.not_mem_nil _

theorem step_enter_blank (sign : CharSign) (hOpen : s.closed = false)
    (hBlank : s.cmdBuf = .const _ 0) :
    ∃ t, s.step sign (.byte 13) = .ok t ∧ t.executed = s.executed ∧ t.closed = false ∧
      t.cmdBuf = .const _ 0 ∧ t.mgr.moveLeftNum = 0 := by
  have hTerm : Terminated s.cmdBuf.cells := hBlank ▸ terminated_blank
  have hNone : text s.cmdBuf.cells = [] := hBlank ▸ text_blank
  refine ⟨(s.setCursor 0).send (ascii "\r\n" ++ debugShell), ?_, rfl, hOpen, hBlank, rfl⟩
  rw [step_enter hOpen hTerm, onEnter_empty hTerm hNone]

theorem quit_isText (sign : CharSign) : IsText sign (ascii "quit") := by
  have hFirst : Plain sign 0x71 := by
    cases sign
    · decide
    · decide
  refine ⟨by decide, ⟨0x71, _, rfl, hFirst⟩, by decide +kernel, by decide +kernel, ?_⟩
  cases sign
  · decide +kernel
  · decide +kernel

theorem step_quit (sign : CharSign) (hOpen : s.closed = false) (hBlank : s.cmdBuf = .const _ 0)
    (hCursor : s.mgr.moveLeftNum = 0) :
    ∃ t, s.step sign (.data (ascii "quit") quit_fits) = .ok t ∧ t.executed = s.executed ∧
      t.closed = false ∧ Terminated t.cmdBuf.cells ∧ text t.cmdBuf.cells = ascii "quit" := by
  have hCells : s.cmdBuf.cells = [] ++ 0 :: List.replicate (maxCmdLen - 1) 0 := by
    rw [hBlank]
    rfl
  have hRoom : (ascii "quit").length ≤ (List.replicate (maxCmdLen - 1) (0 : UInt8)).length := by
    rw [List.length_replicate]
    decide
  obtain ⟨buf, hAppend, hResult⟩ := appendAll_spec List.not_mem_nil (quit_isText sign).noNul
    hCells hRoom
  rw [List.nil_append] at hResult
  refine ⟨{ s.send (ascii "quit") with cmdBuf := buf }, ?_, rfl, hOpen, ?_, ?_⟩
  · rw [(quit_isText sign).step _ hOpen hCursor, hAppend, ok_bind]
  · rw [hResult]
    exact terminated_append_zero _ _
  · rw [hResult]
    exact text_append_zero (quit_isText sign).noNul _

theorem cmdOver_quit (hTerm : Terminated s.cmdBuf.cells)
    (hText : text s.cmdBuf.cells = ascii "quit") :
    ∃ t, s.cmdOver = .ok t ∧ t.executed = s.executed ∧ t.closed = true := by
  have hSome : text s.cmdBuf.cells ≠ [] := by
    rw [hText]
    decide
  have hFirst : s.cmdBuf.peek 0 = 0x71 := by
    have hHead := text_head hSome
    rw [hText] at hHead
    exact (Option.some.inj hHead).symm
  have hQuit : s.cmdBuf.streq (ascii "quit") = true :=
    (Buffer.streq_iff (by decide)).mpr ⟨hTerm, hText⟩
  obtain ⟨m, hUpdate, -⟩ := updateHistoryCmd_lines (s := s) hTerm
  refine ⟨{ s with mgr := m, closed := true }, ?_, rfl, rfl⟩
  unfold Session.cmdOver
  rw [hFirst, if_pos (by decide), hUpdate, ok_bind]
  dsimp only
  rw [if_pos (.inl hQuit)]
  rfl

theorem onEnter_quit (hTerm : Terminated s.cmdBuf.cells)
    (hText : text s.cmdBuf.cells = ascii "quit") :
    ∃ t, s.onEnter = .ok t ∧ t.executed = s.executed ∧ t.closed = true := by
  have hSome : text s.cmdBuf.cells ≠ [] := by
    rw [hText]
    decide
  rw [onEnter_spec hTerm hSome]
  exact cmdOver_quit (s := ((s.setCursor 0).setGCmd (.fill (text s.cmdBuf.cells)
    (Nat.le_of_lt (s.cmdBuf.text_length_lt hTerm)))).send (ascii "\r\n")) hTerm hText

end Rounds

theorem leaving_leaves (sign : CharSign) {s : Session} (hOpen : s.closed = false) :
    Leaves sign s leaving := by
  obtain ⟨a, hCtrlC, hExecuted, hOpen, hBlank⟩ := step_ctrlC sign hOpen
  refine .next hCtrlC hExecuted hOpen ?_
  obtain ⟨b, hEnter, hExecuted, hOpen, hBlank, hCursor⟩ := step_enter_blank sign hOpen hBlank
  refine .next hEnter hExecuted hOpen ?_
  obtain ⟨c, hQuit, hExecuted, hOpen, hTerm, hText⟩ := step_quit sign hOpen hBlank hCursor
  refine .next hQuit hExecuted hOpen ?_
  obtain ⟨d, hLast, hExecuted, hClosed⟩ := onEnter_quit hTerm hText
  exact .last ((step_enter hOpen hTerm).trans hLast) hExecuted hClosed

end TelnetDebug
