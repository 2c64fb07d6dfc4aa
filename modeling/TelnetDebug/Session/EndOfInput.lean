import TelnetDebug.Session.Step

/-! A read that delivers nothing. Its result is kept in an unsigned variable, so
neither the end of the connection nor a failure is noticed: the cleared input
buffer goes through the tests like a key, and at the end of them a byte 0 is
inserted if the cursor is in the line. -/
namespace TelnetDebug

open CBuffer Guarded

/-- The end of the connection, or a failed call. -/
def ReadResult.isEmpty : ReadResult → Bool
  | data bytes _ => bytes.isEmpty
  | failed _ => true

/-- What a round should do when nothing was read: keep the line, the cursor and
the history, and leave the loop unless the call was interrupted. -/
def HandlesEnd (sign : CharSign) (s : Session) (r : ReadResult) : Prop :=
  ∃ t, s.step sign r = .ok t ∧ t.cmdBuf = s.cmdBuf ∧ t.mgr = s.mgr ∧
    (r.errno ≠ some .eintr → t.closed = true)

/-- The cursor is at the end of the line, or in front of all of it. -/
def CursorOutside (s : Session) : Prop :=
  s.mgr.moveLeftNum = 0 ∨ Terminated s.cmdBuf.cells ∧
    (text s.cmdBuf.cells = [] ∨ (text s.cmdBuf.cells).length < s.mgr.moveLeftNum.toNat)

theorem cmdLine_of_isEmpty {r : ReadResult} (h : r.isEmpty = true) :
    r.cmdLine = .const maxCmdLen 0 := by
  cases r with
  | failed errno => rfl
  | data bytes fits =>
      have hNil : bytes = [] := by simpa [ReadResult.isEmpty] using h
      subst hNil
      rfl

theorem terminated_const : Terminated (Buffer.const maxCmdLen (0 : UInt8)).cells :=
  terminated_fill (s := []) (by decide)

/-- Nothing read is handled like a key that is a byte 0. -/
theorem step_isEmpty (sign : CharSign) {s : Session} {r : ReadResult} (hEmpty : r.isEmpty = true)
    (hOpen : s.closed = false) :
    s.step sign r = s.onOther sign (.const maxCmdLen 0) := by
  have hLine : lineRead sign r = .const maxCmdLen 0 := by
    rw [lineRead, cmdLine_of_isEmpty hEmpty]
    exact filtered_plain terminated_const (by simp [text]) (by simp [text])
  have hKey : keyRead sign r = .other := by
    rw [keyRead, hLine]
    cases sign <;> decide
  rw [step_open sign r hOpen, Session.dispatch, ← keyRead, hLine, hKey, cmdLine_of_isEmpty hEmpty,
    Buffer.strlen_eq terminated_const]
  rfl

theorem append_const (s : Session) : s.append (.const maxCmdLen 0) = .ok (s.send []) := by
  unfold Session.append
  rw [Buffer.str_eq terminated_const]
  rfl

/-- With the cursor outside the line nothing but the echo changes. -/
theorem onOther_const_outside (sign : CharSign) {s : Session} (h : CursorOutside s) :
    ∃ bytes, s.onOther sign (.const maxCmdLen 0) = .ok (s.send bytes) := by
  have hPeek : (Buffer.const maxCmdLen (0 : UInt8)).peek 0 = 0 := rfl
  have hReturn : (0 : UInt8) ≠ 13 := by decide
  unfold Session.onOther
  rcases h with hNum | ⟨hTerm, hText⟩
  · rw [midLine_end hNum, ok_bind]
    simp only [hPeek, hReturn, Bool.false_eq_true, false_and, if_false]
    exact ⟨[], append_const s⟩
  · rw [midLine_eq hTerm, ok_bind]
    simp only [hPeek, sign.value_zero, hReturn, Int.reduceLE, false_and, and_false, if_false]
    split
    · next hMid =>
      simp only [decide_eq_true_eq] at hMid
      have hBehind : (text s.cmdBuf.cells).length < s.mgr.moveLeftNum.toNat := by
        rcases hText with hNil | hBehind
        · simp [hNil] at hMid
        · exact hBehind
      unfold Session.insertRaw
      rw [Buffer.strlen_eq hTerm, reading_ok, ok_bind, insertChar_skip 0 (.inr ?_), ok_bind]
      · exact ⟨_, rfl⟩
      · rw [UInt32.lt_iff_toNat_lt,
          toNat_ofNat_line (Nat.le_of_lt (s.cmdBuf.text_length_lt hTerm))]
        exact hBehind
    · exact ⟨[], append_const s⟩

/-- With the cursor in the line a byte 0 is written over a character of it, and
a line that is not terminated is read past its end. -/
theorem onOther_const_inside {sign : CharSign} {s t : Session} (h : ¬ CursorOutside s)
    (hStep : s.onOther sign (.const maxCmdLen 0) = .ok t) : t.cmdBuf ≠ s.cmdBuf := by
  simp only [CursorOutside, not_or, not_and, Nat.not_lt] at h
  obtain ⟨hNum, hCursor⟩ := h
  have hPos : s.mgr.moveLeftNum > 0 := UInt32.pos_iff_ne_zero.mpr hNum
  have hPeek : (Buffer.const maxCmdLen (0 : UInt8)).peek 0 = 0 := rfl
  have hReturn : (0 : UInt8) ≠ 13 := by decide
  unfold Session.onOther at hStep
  by_cases hTerm : Terminated s.cmdBuf.cells
  · obtain ⟨hText, hWithin⟩ := hCursor hTerm
    obtain ⟨before, after, rest, hCut⟩ := line_cut hTerm hWithin
    have hLine : 0 < (text s.cmdBuf.cells).length := List.length_pos_iff.mpr hText
    obtain ⟨buf, hInsert, hResult⟩ := hCut.insertChar hNum 0
    rw [midLine_eq hTerm, ok_bind] at hStep
    simp only [hPeek, sign.value_zero, hPos, hLine, and_self, decide_true, true_and, Int.reduceLE,
      hReturn, false_and, if_false, if_true] at hStep
    unfold Session.insertRaw at hStep
    rw [Buffer.strlen_eq hTerm, reading_ok, ok_bind, hInsert, ok_bind] at hStep
    cases hStep
    intro hSame
    change buf = s.cmdBuf at hSame
    cases after with
    | nil => exact hNum (UInt32.toNat_inj.mp hCut.cursor)
    | cons a after =>
        have ha : (0 : UInt8) = a := by
          have hCells := congrArg Buffer.cells hSame
          rw [hResult, hCut.cells, List.append_assoc] at hCells
          exact (List.cons.inj (List.append_cancel_left hCells)).1
        apply hCut.noNul
        rw [ha]
        simp
  · unfold Session.midLine at hStep
    rw [if_pos hPos, Buffer.strlen_error hTerm] at hStep
    cases hStep

/-- When nothing was read, the round does what it should exactly when the call
was interrupted and the cursor is outside the line: no round ends the session. -/
theorem end_of_input (sign : CharSign) (s : Session) (r : ReadResult) (hOpen : s.closed = false)
    (hEmpty : r.isEmpty = true) :
    HandlesEnd sign s r ↔ r.errno = some .eintr ∧ CursorOutside s := by
  rw [HandlesEnd, step_isEmpty sign hEmpty hOpen]
  constructor
  · rintro ⟨t, hStep, hBuf, -, hEnd⟩
    have hOutside : CursorOutside s := by
      by_contra h
      exact onOther_const_inside h hStep hBuf
    obtain ⟨bytes, hStay⟩ := onOther_const_outside sign hOutside
    rw [hStay] at hStep
    cases hStep
    refine ⟨?_, hOutside⟩
    by_contra h
    have hClosed : s.closed = true := hEnd h
    rw [hOpen] at hClosed
    cases hClosed
  · rintro ⟨hInterrupted, hOutside⟩
    obtain ⟨bytes, hStay⟩ := onOther_const_outside sign hOutside
    exact ⟨_, hStay, rfl, rfl, fun h => absurd hInterrupted h⟩

/-- An interrupted read in the first round. -/
theorem end_of_input_interrupted :
    HandlesEnd .signed .init (.failed .eintr) ↔
      (ReadResult.failed .eintr).errno = some .eintr ∧ CursorOutside .init :=
  end_of_input .signed .init (.failed .eintr) rfl rfl

/-- The peer closed the connection: the session goes on. With the cursor in the
line the line is cut as well. -/
theorem end_of_input_ignored :
    ¬ HandlesEnd .signed .init (.data [] (by decide)) ∧
      ∃ t, shellThreadFunc .signed .init [.data (ascii "ab") (by decide),
          .data (ascii "\x1b[D") (by decide), .data [] (by decide)] = .ok t ∧
        t.closed = false ∧ text t.cmdBuf.cells = ascii "a" := by
  refine ⟨?_, Sat.returns (by decide +kernel)⟩
  rintro ⟨t, hStep, -, -, hEnd⟩
  rw [step_isEmpty .signed rfl rfl] at hStep
  obtain ⟨bytes, hStay⟩ := onOther_const_outside .signed (s := .init) (.inl rfl)
  rw [hStay] at hStep
  cases hStep
  exact Bool.false_ne_true (hEnd (by decide))

end TelnetDebug
